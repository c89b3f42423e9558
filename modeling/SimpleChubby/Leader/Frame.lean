import SimpleChubby.Leader.Handles
import SimpleChubby.Leader.Replies

/-!
# What the handlers leave alone

For each handler: the session table stays; the handles grow by the one looked
up at most; a lock is noted for another client by a hand-off only; and a handle
is sent back by `fileOpen` only. All of it holds over any database.
-/

namespace SimpleChubby

variable {δ : Type} {E : Service δ} {session : SessionId} {xid : Xid} {fd : FileHandler}
  {st st' : Leader δ}

/-! ## The session table -/

theorem Leader.touchClient_sessions (h : st.client session ≠ []) :
    (st.touchClient session).session2clientMap = st.session2clientMap :=
  UMap.touch_eq_self _ _ h

theorem HandOffEnds.sessions {fileName : Str} (h : HandOffEnds fileName st (.ret () st')) :
    st'.session2clientMap = st.session2clientMap := by
  cases h with
  | noQueue _ => rfl
  | lastWaiter _ hw => exact Leader.touchClient_sessions hw
  | moreWaiters _ _ hw => exact Leader.touchClient_sessions hw

theorem HandOffEnds.db {fileName : Str} (h : HandOffEnds fileName st (.ret () st')) :
    st'.db = st.db := by
  cases h with
  | noQueue _ => rfl
  | lastWaiter _ _ => rfl
  | moreWaiters _ _ _ => rfl

theorem ReleaseEnds.sessions (h : ReleaseEnds E session xid fd st (.ret () st')) :
    st'.session2clientMap = st.session2clientMap := by
  cases h with
  | threw hc _ => exact Leader.touchClient_sessions hc
  | refused hc _ => exact Leader.touchClient_sessions hc
  | released hc _ hoff => exact hoff.sessions.trans (Leader.touchClient_sessions hc)

theorem ReclaimEnds.sessions {clientId : Str}
    (h : ReclaimEnds E session fd clientId st (.ret () st')) :
    st'.session2clientMap = st.session2clientMap := by
  cases h with
  | notHeld _ => rfl
  | held _ hr => exact hr.sessions

/-- The clients are as they were when the lock has been reclaimed. -/
theorem ReclaimEnds.client {clientId : Str}
    (h : ReclaimEnds E session fd clientId (st.entered session fd) (.ret () st')) (s : SessionId) :
    st'.client s = st.client s := by
  unfold Leader.client
  rw [h.sessions]
  exact UMap.get_touch _ _ _

theorem DeleteEnds.sessions {r : Except Unit Unit}
    (h : DeleteEnds E session xid fd st (.ret r st')) :
    st'.session2clientMap = st.session2clientMap := by
  cases h with
  | threw hc _ => exact Leader.touchClient_sessions hc
  | refused hc _ => exact Leader.touchClient_sessions hc
  | deleted hc _ => exact Leader.touchClient_sessions hc

theorem AcquireEnds.sessions {busy : Leader δ → Leader δ}
    (h : AcquireEnds E session xid fd busy st (.ret () st'))
    (hbusy : ∀ st₁, (busy st₁).session2clientMap = st₁.session2clientMap) :
    st'.session2clientMap = st.session2clientMap := by
  cases h with
  | threw hc _ => exact Leader.touchClient_sessions hc
  | taken hc _ _ => exact Leader.touchClient_sessions hc
  | busy hc _ => exact (hbusy _).trans (Leader.touchClient_sessions hc)

theorem ClearsQueue.sessions {fileName : Str}
    (h : ClearsQueue session fileName st (some st')) :
    st'.session2clientMap = st.session2clientMap := by
  cases h with
  | noQueue _ => rfl
  | kept _ _ _ => rfl
  | dropped _ _ => rfl

theorem CloseEnds.sessions (h : CloseEnds E session xid fd st (.ret () st')) :
    st'.session2clientMap = st.session2clientMap := by
  cases h with
  | deletes hc hreclaim _ hdelete =>
    have hreclaimed := hreclaim.sessions.trans (Leader.touchClient_sessions hc)
    exact hdelete.sessions.trans hreclaimed
  | closes hc hreclaim _ hclear =>
    have hreclaimed := hreclaim.sessions.trans (Leader.touchClient_sessions hc)
    exact hclear.sessions.trans hreclaimed

theorem CloseAllEnds.sessions {l : List FdRecord} {o : Outcome Stop (Leader δ) Unit}
    (h : CloseAllEnds E session l st o) (ho : o = .ret () st') :
    st'.session2clientMap = st.session2clientMap := by
  induction h with
  | done =>
    cases ho
    rfl
  | stopped _ => cases ho
  | next hclose _ ih => exact (ih ho).trans hclose.sessions

/-- Whether an input changes what is noted of a session: `startSession` and
    `disconnect` of that session do, and `initializeLeader`. -/
def Input.registers (s : SessionId) : Input → Bool
  | .rpc session _ (.startSession _) => session == s
  | .disconnect session => session == s
  | .initializeLeader => true
  | _ => false

/-- Every other input leaves the client of the session noted. -/
theorem Handles.registered {input : Input} (h : Handles E st input (.ret () st')) {s : SessionId}
    {c : Str} (hother : input.registers s = false) (hs : st.session2clientMap.find s = some c) :
    st'.session2clientMap.find s = some c := by
  have htouch : ∀ session, (st.touchClient session).session2clientMap.find s = some c := by
    intro session
    show (st.session2clientMap.touch session).find s = some c
    rw [UMap.find_touch]
    split_ifs with heq
    · subst heq
      rw [UMap.get_of_find_some hs]
    · exact hs
  cases h with
  | fileOpen ho =>
    cases ho with
    | badArg _ _ => exact htouch _
    | failed _ _ _ => exact htouch _
    | opened _ _ _ => exact htouch _
  | fileClose ho =>
    rw [ho.sessions]
    exact hs
  | fileDelete ho =>
    rw [ho.sessions]
    exact hs
  | getContentsAndStat ho =>
    cases ho with
    | answered _ _ _ => exact hs
  | setContents ho =>
    cases ho with
    | failed _ => exact hs
    | written _ => exact hs
  | acquire ho =>
    rw [ho.sessions fun _ => rfl]
    exact hs
  | tryAcquire ho =>
    rw [ho.sessions fun _ => rfl]
    exact hs
  | release ho =>
    rw [ho.sessions]
    exact hs
  | @startSession session x clientId _ ho =>
    cases ho with
    | refused _ => exact hs
    | started _ =>
      show (st.session2clientMap.set session clientId).find s = some c
      rw [UMap.find_set, if_neg fun heq => beq_eq_false_iff_ne.mp hother heq.symm]
      exact hs
  | fileReopen => exact htouch _
  | @disconnect session _ ho =>
    cases ho with
    | @left st₁ hall =>
      show (st₁.session2clientMap.erase session).find s = some c
      rw [UMap.find_erase, if_neg fun heq => beq_eq_false_iff_ne.mp hother heq.symm,
        hall.sessions rfl]
      exact hs
  | initializeLeader _ => cases hother

/-! ## The open handles -/

/-- `findFd` adds one record at most, with the next allocation. -/
theorem Leader.new_of_foundFd {s : SessionId} {p : FdRecord}
    (h : p ∈ (st.foundFd session fd).fds s) :
    p ∈ st.fds s ∨ s = session ∧ p = ⟨st.nextAddress, fd⟩ := by
  unfold Leader.fds at h
  rw [Leader.foundFd_session2fdMap] at h
  split_ifs at h
  · rw [UMap.get_touch] at h
    exact Or.inl h
  · rw [UMap.get_alter, UMap.get_touch, UMap.get_touch] at h
    split_ifs at h with hs
    · subst hs
      rcases List.mem_append.mp h with h | h
      · exact Or.inl h
      · exact Or.inr ⟨rfl, List.mem_singleton.mp h⟩
    · exact Or.inl h

/-- `findFd` adds a record with the handle it looks for at most. -/
theorem Leader.mem_of_foundFd {s : SessionId} {p : FdRecord}
    (h : p ∈ (st.foundFd session fd).fds s) : p ∈ st.fds s ∨ s = session ∧ p.value = fd := by
  rcases Leader.new_of_foundFd h with hp | ⟨hs, rfl⟩
  · exact Or.inl hp
  · exact Or.inr ⟨hs, rfl⟩

theorem Leader.fds_openFd {s : SessionId} : (st.openFd session fd).fds s =
    if s = session then st.fds s ++ [⟨st.nextAddress, fd⟩] else st.fds s := by
  unfold Leader.fds
  rw [Leader.openFd_session2fdMap, UMap.get_alter]
  split_ifs with hs
  · rw [hs]
  · rfl

theorem Leader.mem_openFd {s : SessionId} {p : FdRecord} :
    p ∈ (st.openFd session fd).fds s ↔
      p ∈ st.fds s ∨ s = session ∧ p = ⟨st.nextAddress, fd⟩ := by
  rw [Leader.fds_openFd]
  split_ifs with hs
  · simp [hs]
  · simp [hs]

/-- With every record filed, deleting a file drops its records from every session. -/
theorem Leader.fds_dropRecords (hi : st.Indexed) {s : SessionId} (f : Str) :
    (st.dropRecords f).fds s = (st.fds s).filter fun p => p.value.fileName ≠ f := by
  unfold Leader.fds
  rw [Leader.dropRecords_session2fdMap, HandleIndex.get_dropFds]
  refine List.filter_congr fun p hp => Bool.eq_iff_iff.mpr ?_
  simp only [List.all_eq_true, Bool.or_eq_true, bne_iff_ne, decide_eq_true_iff]
  constructor
  · rintro hall rfl
    have hmem := (hi.inverse s p).mp hp
    rcases hall _ hmem with hs | haddress
    · exact hs rfl
    · exact haddress rfl
  · intro hname q hq
    by_contra hcon
    obtain ⟨_, haddress⟩ := not_or.mp hcon
    obtain ⟨_, rfl⟩ := hi.owned s q.session p q.fd hp (hi.mem_session hq) (not_not.mp haddress)
    exact hname (hi.filed f q hq)

theorem Leader.mem_dropRecords (hi : st.Indexed) {fileName : Str} {s : SessionId} {p : FdRecord} :
    p ∈ (st.dropRecords fileName).fds s ↔ p ∈ st.fds s ∧ p.value.fileName ≠ fileName := by
  rw [Leader.fds_dropRecords hi, List.mem_filter, decide_eq_true_iff]

theorem Leader.fds_removeFd {q : FdRecord} {s : SessionId} : (st.removeFd session q).fds s =
    if s = session then (st.fds s).filter (fun p => p.address != q.address) else st.fds s := by
  unfold Leader.fds
  rw [Leader.removeFd_session2fdMap, UMap.get_eraseIf _ _ _ fun l hl => List.isEmpty_iff.mp hl,
    UMap.get_alter]
  split_ifs with hs
  · rw [hs]
  · rfl

theorem Leader.mem_removeFd {q : FdRecord} {s : SessionId} {p : FdRecord} :
    p ∈ (st.removeFd session q).fds s ↔ p ∈ st.fds s ∧ (s = session → p.address ≠ q.address) := by
  rw [Leader.fds_removeFd]
  split_ifs with hs
  · simp [hs]
  · simp [hs]

theorem ClearsQueue.fds_eq {fileName : Str} (h : ClearsQueue session fileName st (some st'))
    (s : SessionId) : st'.fds s = st.fds s := by
  unfold Leader.fds
  rw [h.fds.2.1]

theorem ReleaseEnds.mem_fds (h : ReleaseEnds E session xid fd st (.ret () st'))
    {s : SessionId} {p : FdRecord} (hp : p ∈ st.fds s) : p ∈ st'.fds s := by
  unfold Leader.fds
  rw [h.fds.2.1]
  exact st.mem_foundFd session fd hp

theorem ReleaseEnds.mem_of_fds (h : ReleaseEnds E session xid fd st (.ret () st'))
    {s : SessionId} {p : FdRecord} (hp : p ∈ st'.fds s) :
    p ∈ st.fds s ∨ s = session ∧ p.value = fd := by
  unfold Leader.fds at hp
  rw [h.fds.2.1] at hp
  exact Leader.mem_of_foundFd hp

theorem ReclaimEnds.mem_of_fds {clientId : Str}
    (h : ReclaimEnds E session fd clientId st (.ret () st')) {s : SessionId} {p : FdRecord}
    (hp : p ∈ st'.fds s) : p ∈ st.fds s ∨ s = session ∧ p.value = fd := by
  cases h with
  | notHeld _ => exact Or.inl hp
  | held _ hr => exact hr.mem_of_fds hp

theorem DeleteEnds.mem_of_fds {r : Except Unit Unit}
    (h : DeleteEnds E session xid fd st (.ret r st')) {s : SessionId} {p : FdRecord}
    (hp : p ∈ st'.fds s) : p ∈ st.fds s ∨ s = session ∧ p.value = fd := by
  have hfound : p ∈ (st.entered session fd).fds s → p ∈ st.fds s ∨ s = session ∧ p.value = fd :=
    fun hp => Leader.mem_of_foundFd hp
  cases h with
  | threw _ _ => exact hfound hp
  | refused _ _ => exact hfound hp
  | deleted _ _ =>
    refine hfound ?_
    unfold Leader.fds at hp ⊢
    rw [Leader.dropEvents_session2fdMap, Leader.logged_session2fdMap, Leader.logged_session2fdMap,
      Leader.unmarkEphemeral_session2fdMap, Leader.dropQueue_session2fdMap,
      Leader.dropFile_session2fdMap, Leader.dropRecords_session2fdMap,
      HandleIndex.get_dropFds] at hp
    exact (List.mem_filter.mp hp).1

theorem CloseEnds.mem_of_fds (h : CloseEnds E session xid fd st (.ret () st'))
    {s : SessionId} {p : FdRecord} (hp : p ∈ st'.fds s) :
    p ∈ st.fds s ∨ s = session ∧ p.value = fd := by
  have hstart : ∀ st₁ : Leader δ,
      ReclaimEnds E session fd (st.client session) (st.entered session fd) (.ret () st₁) →
      p ∈ st₁.fds s → p ∈ st.fds s ∨ s = session ∧ p.value = fd := by
    intro st₁ hreclaim hp
    rcases hreclaim.mem_of_fds hp with hp | hp
    · exact Leader.mem_of_foundFd hp
    · exact Or.inr hp
  cases h with
  | deletes _ hreclaim _ hdelete =>
    rcases hdelete.mem_of_fds hp with hp | hp
    · exact hstart _ hreclaim hp
    · exact Or.inr hp
  | @closes st₁ st₂ _ hreclaim _ hclear =>
    have hremoved : p ∈ st₂.fds s := hp
    rw [hclear.fds_eq] at hremoved
    exact hstart _ hreclaim (Leader.mem_removeFd.mp hremoved).1

/-- The loop of `disconnect` adds records with the handles it closes at most. -/
theorem CloseAllEnds.mem_of_fds {l : List FdRecord} {o : Outcome Stop (Leader δ) Unit}
    (h : CloseAllEnds E session l st o) (ho : o = .ret () st') {s : SessionId} {p : FdRecord}
    (hp : p ∈ st'.fds s) : p ∈ st.fds s ∨ s = session ∧ ∃ q ∈ l, p.value = q.value := by
  induction h with
  | done =>
    cases ho
    exact Or.inl hp
  | stopped _ => cases ho
  | @next q rest _ _ _ hclose _ ih =>
    rcases ih ho with hp | ⟨hs, q', hq', hvalue⟩
    · rcases hclose.mem_of_fds hp with hp | ⟨hs, hvalue⟩
      · exact Or.inl hp
      · exact Or.inr ⟨hs, q, List.mem_cons_self, hvalue⟩
    · exact Or.inr ⟨hs, q', List.mem_cons_of_mem _ hq', hvalue⟩

/-! ## The locks noted for the clients -/

section Held

variable {c clientId g fileName : Str}

theorem Leader.mem_hold :
    g ∈ (st.hold clientId fileName).held c ↔ g ∈ st.held c ∨ c = clientId ∧ g = fileName := by
  unfold Leader.held
  rw [Leader.hold_client2heldLockMap, UMap.get_alter]
  split_ifs with hc
  · subst hc
    rw [Finset.mem_insert]
    simp [or_comm]
  · simp [hc]

theorem Leader.mem_unhold :
    g ∈ (st.unhold clientId fileName).held c ↔ g ∈ st.held c ∧ ¬ (c = clientId ∧ g = fileName) := by
  have hempty : ∀ v : Finset Str, decide (v = ∅) = true → v = default :=
    fun v hv => of_decide_eq_true hv
  unfold Leader.held
  rw [Leader.unhold_client2heldLockMap, UMap.get_eraseIf _ _ _ hempty, UMap.get_alter]
  split_ifs with hc
  · subst hc
    rw [Finset.mem_erase]
    simp [and_comm]
  · simp [hc]

/-- Whom the waiters popped in a segment are. -/
def Pops (P : Str → SessionId → Prop) (l : List Action) : Prop :=
  ∀ f w x, .dequeue f w x ∈ l → P f w

/-- The hand-off notes the lock for the client of the waiter it pops, if any. -/
theorem HandOffEnds.moves (h : HandOffEnds fileName st (.ret () st')) :
    ∃ o : Option Str,
      (∀ c g, g ∈ st'.held c ↔ g ∈ st.held c ∨ some c = o ∧ g = fileName) ∧
      Leader.Adds (Pops fun f w => f = fileName ∧ some (st.client w) = o) st st' := by
  have hpops : ∀ (waiter : SessionId) (xid : Xid), Pops
      (fun f w => f = fileName ∧ some (st.client w) = some (st.client waiter))
      (.dequeue fileName waiter xid :: Leader.replyOf waiter xid (.bool true)) := by
    intro waiter xid f w x hm
    rcases List.mem_cons.mp hm with heq | hm
    · cases heq
      exact ⟨rfl, rfl⟩
    · cases (mem_replyOf hm).1
  cases h with
  | noQueue _ =>
    refine ⟨none, fun c g => by simp, [], fun f w x hm => ?_, (List.append_nil _).symm⟩
    exact absurd hm List.not_mem_nil
  | @lastWaiter waiter xid _ _ =>
    refine ⟨some (st.client waiter), fun c g => ?_, _, hpops waiter xid, ?_⟩
    · rw [Option.some_inj]
      exact Leader.mem_hold
    · simp
  | @moreWaiters waiter xid rest _ _ _ =>
    refine ⟨some (st.client waiter), fun c g => ?_, _, hpops waiter xid, ?_⟩
    · rw [Option.some_inj]
      exact Leader.mem_hold
    · simp

theorem DeleteEnds.held {r : Except Unit Unit} (h : DeleteEnds E session xid fd st (.ret r st')) :
    st'.client2heldLockMap = st.client2heldLockMap := by
  cases h with
  | threw _ _ => rfl
  | refused _ _ => rfl
  | deleted _ _ => rfl

theorem OpenEnds.held {mode : Mode}
    (h : OpenEnds E session xid fileName mode st (.ret () st')) :
    st'.client2heldLockMap = st.client2heldLockMap := by
  cases h with
  | badArg _ _ => rfl
  | failed _ _ _ => rfl
  | opened _ _ _ => rfl

theorem ReadEnds.held (h : ReadEnds E session xid fd st (.ret () st')) :
    st'.client2heldLockMap = st.client2heldLockMap := by
  cases h with
  | answered _ _ _ => rfl

theorem WriteEnds.held {content : Str}
    (h : WriteEnds E session xid fd content st (.ret () st')) :
    st'.client2heldLockMap = st.client2heldLockMap := by
  cases h with
  | failed _ => rfl
  | written _ => rfl

theorem StartEnds.held (h : StartEnds E session xid clientId st (.ret () st')) :
    st'.client2heldLockMap = st.client2heldLockMap := by
  cases h with
  | refused _ => rfl
  | started _ => rfl

theorem ClearsQueue.held (h : ClearsQueue session fileName st (some st')) :
    st'.client2heldLockMap = st.client2heldLockMap := by
  cases h with
  | noQueue _ => rfl
  | kept _ _ _ => rfl
  | dropped _ _ => rfl

end Held

/-! ## The files noted as ephemeral -/

section Marks

variable {c clientId g fileName : Str}

theorem Leader.mem_markedEphemeral {mode : Mode} :
    g ∈ (st.markedEphemeral clientId fileName mode).ephemeral c ↔
      g ∈ st.ephemeral c ∨ mode.has ModeFlag.ephemeral = true ∧ c = clientId ∧ g = fileName := by
  unfold Leader.ephemeral
  rw [Leader.markedEphemeral_client2ephemeralMap]
  split_ifs with hmode
  · rw [UMap.get_alter]
    split_ifs with hc
    · subst hc
      rw [Finset.mem_insert]
      simp [hmode, or_comm]
    · simp [hc]
  · simp [hmode]

theorem Leader.mem_unmarkEphemeral {name : Option Str} :
    g ∈ (st.unmarkEphemeral clientId name).ephemeral c ↔
      g ∈ st.ephemeral c ∧ ¬ (c = clientId ∧ name = some g) := by
  have hempty : ∀ v : Finset Str, decide (v = ∅) = true → v = default :=
    fun v hv => of_decide_eq_true hv
  unfold Leader.ephemeral
  rw [Leader.unmarkEphemeral_client2ephemeralMap, UMap.get_eraseIf _ _ _ hempty, UMap.get_alter]
  split_ifs with hc
  · subst hc
    cases name with
    | none => simp
    | some name =>
      show g ∈ (st.client2ephemeralMap.get c).erase name ↔ _
      rw [Finset.mem_erase]
      simp [and_comm, eq_comm]
  · simp [hc]

theorem Service.freedName_eq_some {E : Service δ} {p : FdRecord} :
    E.freedName p = some g ↔ E.stillNamed p = true ∧ g = p.value.fileName := by
  unfold Service.freedName
  split_ifs with hnamed
  · simp [hnamed, eq_comm]
  · simp [hnamed]

/-- A deletion takes the note of its own client back, if the freed record still has
    its name. -/
theorem Leader.mem_ephemeral_deleted {E : Service δ} {db : δ} {l : List Action}
    (hclient : st.client session = clientId) :
    g ∈ (((st.deleted E session xid fd db).logged l).dropEvents fileName).ephemeral c ↔
      g ∈ st.ephemeral c ∧
        ¬ (c = clientId ∧ E.stillNamed (st.findFd session fd) = true ∧ g = fd.fileName) := by
  have hunmark : g ∈ (st.unmarkEphemeral clientId (E.freedName (st.findFd session fd))).ephemeral
      c ↔ _ := Leader.mem_unmarkEphemeral
  rw [Service.freedName_eq_some, Leader.findFd_value] at hunmark
  subst hclient
  unfold Leader.ephemeral at hunmark ⊢
  rw [Leader.dropEvents_client2ephemeralMap, Leader.logged_client2ephemeralMap,
    Leader.logged_client2ephemeralMap]
  exact hunmark

end Marks

/-! ## The handles sent back -/

/-- The handle an action sends to a session. -/
def Action.handle : Action → Option FileHandler
  | .reply _ _ (.fd fd) => some fd
  | _ => none

/-- The handles sent, with the sessions they were sent to. -/
def handlesSent (log : List Action) : List (SessionId × FileHandler) :=
  log.filterMap fun
    | .reply s _ (.fd fd) => some (s, fd)
    | _ => none

/-- A segment in which no handle is sent. -/
def Handleless (l : List Action) : Prop := ∀ a ∈ l, a.handle = none

section Sent

variable {l l' : List Action}

theorem Handleless.append (h : Handleless l) (h' : Handleless l') : Handleless (l ++ l') := by
  intro a ha
  rcases List.mem_append.mp ha with ha | ha
  · exact h a ha
  · exact h' a ha

theorem Chatter.handleless (h : Chatter l) : Handleless l := by
  induction h with
  | nil => exact fun a ha => by cases ha
  | event _ ih => exact List.forall_mem_cons.mpr ⟨rfl, ih⟩
  | handOff _ ih =>
    refine List.forall_mem_cons.mpr ⟨rfl, Handleless.append (fun a ha => ?_) ih⟩
    rw [(mem_replyOf ha).1]
    rfl

theorem handleless_replyOf {body : Reply} (h : ∀ fd, body ≠ .fd fd) :
    Handleless (Leader.replyOf session xid body) := by
  intro a ha
  rw [(mem_replyOf ha).1]
  cases body with
  | fd val => exact absurd rfl (h val)
  | _ => rfl

theorem AnswersBy.handleless (h : AnswersBy Reply.Plain session xid l) : Handleless l := by
  obtain ⟨before, body, after, hbody, hbefore, hafter, rfl⟩ := h
  refine (hbefore.handleless.append ?_).append hafter.handleless
  exact handleless_replyOf hbody.handleless

theorem Leader.Adds.plainReply {st₁ : Leader δ} {body : Reply} (h : st₁.log = st.log)
    (hb : ∀ fd, body ≠ .fd fd) :
    Leader.Adds Handleless st (st₁.logged (Leader.replyOf session xid body)) :=
  ⟨_, handleless_replyOf hb, by rw [Leader.logged_log, h]⟩

theorem ReadEnds.handleless (h : ReadEnds E session xid fd st (.ret () st')) :
    Leader.Adds Handleless st st' := by
  cases h with
  | answered _ _ hfd => exact .plainReply rfl hfd

theorem WriteEnds.handleless {content : Str}
    (h : WriteEnds E session xid fd content st (.ret () st')) :
    Leader.Adds Handleless st st' := by
  cases h with
  | failed _ => exact .plainReply rfl (by simp)
  | written _ =>
    exact ⟨_, (handleless_replyOf (by simp)).append (chatter_contentEvents _ _).handleless, rfl⟩

theorem StartEnds.handleless {clientId : Str}
    (h : StartEnds E session xid clientId st (.ret () st')) : Leader.Adds Handleless st st' := by
  cases h with
  | refused _ => exact .plainReply rfl (by simp)
  | started _ => exact .plainReply rfl (by simp)

theorem DisconnectEnds.handleless (h : DisconnectEnds E session st (.ret () st')) :
    Leader.Adds Handleless st st' := by
  cases h with
  | left hall =>
    obtain ⟨l, hl, hlog⟩ := hall.adds rfl
    exact ⟨l, hl.handleless, hlog⟩

theorem InitializeEnds.handleless (h : InitializeEnds E st (.ret () st')) :
    Leader.Adds Handleless st st' := by
  cases h with
  | initialized _ =>
    have hnil : Handleless [] := fun a ha => absurd ha List.not_mem_nil
    refine ⟨[], hnil, ?_⟩
    rw [(Leader.recovered_queue _ _).2, List.append_nil]
    rfl

/-- A segment in which the handles sent have accepted names. -/
def SendsAccepted (l : List Action) : Prop :=
  ∀ a ∈ l, ∀ fd ∈ a.handle, checkName fd.fileName = true

theorem Handleless.sendsAccepted (h : Handleless l) : SendsAccepted l := by
  intro a ha fd hfd
  rw [h a ha] at hfd
  cases hfd

/-- The handles that have been sent have accepted names. -/
theorem name_of_handlesSent {log : List Action} (h : SendsAccepted log) {s : SessionId}
    {fd : FileHandler} (hfd : (s, fd) ∈ handlesSent log) : NameOk fd.fileName := by
  obtain ⟨a, ha, heq⟩ := List.mem_filterMap.mp hfd
  split at heq
  · cases heq
    exact checkName_iff.mp (h _ ha _ rfl)
  · cases heq

theorem Leader.Adds.accepted (h : Leader.Adds Handleless st st') :
    Leader.Adds SendsAccepted st st' :=
  h.imp fun _ hl => hl.sendsAccepted

/-- A plain answer sends no handle. -/
theorem Leader.Adds.plain (h : Leader.Adds (AnswersBy Reply.Plain session xid) st st') :
    Leader.Adds SendsAccepted st st' :=
  h.imp fun _ hl => hl.handleless.sendsAccepted

/-- An action that sends no handle comes first. -/
theorem Leader.Adds.after {action : Action} (haction : action.handle = none)
    (h : Leader.Adds SendsAccepted (st.logged [action]) st') :
    Leader.Adds SendsAccepted st st' := by
  obtain ⟨l, hl, hlog⟩ := h
  refine ⟨action :: l, List.forall_mem_cons.mpr ⟨fun fd hfd => ?_, hl⟩, ?_⟩
  · rw [haction] at hfd
    cases hfd
  · rw [hlog, Leader.logged_log, List.append_assoc]
    rfl

theorem OpenEnds.sendsAccepted {fileName : Str} {mode : Mode}
    (h : OpenEnds E session xid fileName mode st (.ret () st')) :
    Leader.Adds SendsAccepted st st' := by
  cases h with
  | badArg _ _ => exact .accepted (.plainReply rfl (by simp))
  | failed _ _ _ => exact .accepted (.plainReply rfl (by simp))
  | @opened n db hc hname hdb =>
    have hevents := chatter_parentEvents (st.opened E session xid fileName mode n db) fileName
    refine ⟨_, fun a ha => ?_, by rw [Leader.logged_logged, Leader.logged_log]; rfl⟩
    rcases List.mem_append.mp ha with ha | ha
    · rw [(mem_replyOf ha).1]
      rintro fd hfd
      cases hfd
      exact hname
    · exact hevents.handleless.sendsAccepted a ha

/-- Only `fileOpen` sends a handle, and the file has an accepted name. -/
theorem Handles.sendsAccepted {input : Input} (h : Handles E st input (.ret () st')) :
    Leader.Adds SendsAccepted st st' := by
  cases h with
  | fileOpen ho => exact .after rfl ho.sendsAccepted
  | fileClose ho =>
    have hplain : Leader.Adds (AnswersBy Reply.Plain _ _) _ _ := ho.answersBy.imp fun _ hl =>
      hl.mono fun _ htrue => htrue ▸ Reply.plain_bool true
    exact .after rfl hplain.plain
  | fileDelete ho => exact .after rfl ho.answersBy.plain
  | getContentsAndStat ho => exact .after rfl ho.handleless.accepted
  | setContents ho => exact .after rfl ho.handleless.accepted
  | acquire ho =>
    have hbusy := ho.adds (fun _ hl => hl.handleless) fun st₁ =>
      ⟨_, List.forall_mem_singleton.mpr rfl, rfl⟩
    exact .after rfl hbusy.accepted
  | tryAcquire ho =>
    exact .after rfl (ho.adds (fun _ hl => hl) fun st₁ =>
      .answersBy (Reply.plain_bool false) rfl).plain
  | release ho => exact .after rfl ho.answersBy.plain
  | startSession ho => exact .after rfl ho.handleless.accepted
  | @fileReopen s x fd mode =>
    have hreply : Leader.Adds Handleless (st.logged [.call s x (.fileReopen fd mode)])
      ((st.logged [.call s x (.fileReopen fd mode)]).reopened s x fd mode) :=
        .plainReply rfl (by simp)
    exact .after rfl hreply.accepted
  | disconnect ho => exact .after rfl ho.handleless.accepted
  | initializeLeader ho => exact .after rfl ho.handleless.accepted

end Sent

end SimpleChubby
