import SimpleChubby.Leader.Frame
import SimpleChubby.Leader.Recipients

/-!
# The sessions registered for events

A session is registered for the events of a file by opening it, and only while
it has a handle on the file open. Closing a handle ends the registration,
unless the file is ephemeral and the database does not delete it.
-/

namespace SimpleChubby

variable {δ : Type}

/-- The session is registered for an event of the file. -/
def Leader.Listens (st : Leader δ) (session : SessionId) (fileName : Str) : Prop :=
  session ∈ st.file2lockChangeMap.get fileName ∨ session ∈ st.file2contentChangeMap.get fileName

/-- A session registered for the events of a file has a handle on it open. -/
def Leader.Subscribed (st : Leader δ) : Prop :=
  ∀ s f, st.Listens s f → ∃ p ∈ st.fds s, p.value.fileName = f

/-- The database does not delete the node, but does not fail an assertion either. -/
def Refuses (E : Service δ) (fd : FileHandler) (db : δ) : Prop :=
  ∃ db', E.db.checkAndDelete fd.fileName fd.instanceNumber db = .ret false db' ∨
    E.db.checkAndDelete fd.fileName fd.instanceNumber db = .stop .exception db'

section Updates

variable {st st' : Leader δ} {session s : SessionId} {fileName f : Str}

theorem Leader.listens_unsubscribed :
    (st.unsubscribed session fileName).Listens s f ↔
      st.Listens s f ∧ ¬ (s = session ∧ f = fileName) := by
  unfold Leader.Listens
  rw [Leader.unsubscribed_file2lockChangeMap, Leader.unsubscribed_file2contentChangeMap,
    mem_unsubscribe, mem_unsubscribe, or_and_right]

theorem Leader.listens_dropEvents :
    (st.dropEvents fileName).Listens s f ↔ st.Listens s f ∧ f ≠ fileName := by
  unfold Leader.Listens
  rw [Leader.dropEvents_file2lockChangeMap, Leader.dropEvents_file2contentChangeMap,
    UMap.get_erase, UMap.get_erase]
  split_ifs with hf
  · subst hf
    refine iff_of_false ?_ fun h => h.2 rfl
    rintro (hs | hs) <;> cases hs
  · exact (and_iff_left hf).symm

theorem Leader.listens_subscribed {mode : Mode}
    (h : (st.subscribed session fileName mode).Listens s f) :
    st.Listens s f ∨ s = session ∧ f = fileName := by
  have halter : ∀ {m : UMap Str (List SessionId)},
      s ∈ (m.alter fileName (· ++ [session])).get f →
        s ∈ m.get f ∨ s = session ∧ f = fileName := by
    intro m hs
    rw [UMap.get_alter] at hs
    split_ifs at hs with hf
    · subst hf
      rcases List.mem_append.mp hs with hs | hs
      · exact Or.inl hs
      · exact Or.inr ⟨List.mem_singleton.mp hs, rfl⟩
    · exact Or.inl hs
  unfold Leader.Listens at h ⊢
  rw [Leader.subscribed_file2lockChangeMap, Leader.subscribed_file2contentChangeMap] at h
  rcases h with h | h
  · split_ifs at h
    · exact (halter h).imp_left Or.inl
    · exact Or.inl (Or.inl h)
  · split_ifs at h
    · exact (halter h).imp_left Or.inr
    · exact Or.inl (Or.inr h)

/-- Nobody registers and no handle is dropped. -/
theorem Leader.Subscribed.grow (h : st.Subscribed)
    (hlistens : ∀ s f, st'.Listens s f → st.Listens s f)
    (hfds : ∀ s p, p ∈ st.fds s → p ∈ st'.fds s) : st'.Subscribed := by
  intro s f hs
  obtain ⟨p, hp, hname⟩ := h s f (hlistens s f hs)
  exact ⟨p, hfds s p hp, hname⟩

theorem Leader.Subscribed.foundFd (h : st.Subscribed) (fd : FileHandler) :
    (st.foundFd session fd).Subscribed :=
  h.grow (fun _ _ hs => hs) fun _ _ hp => st.mem_foundFd session fd hp

theorem Leader.Subscribed.touchFds (h : st.Subscribed) : (st.touchFds session).Subscribed := by
  refine h.grow (fun _ _ hs => hs) fun s p hp => ?_
  unfold Leader.fds
  rw [Leader.touchFds_session2fdMap, UMap.get_touch]
  exact hp

/-- A handle is opened and its session registered for the events of its file. -/
theorem Leader.Subscribed.opened (h : st.Subscribed) (fd : FileHandler) (mode : Mode) :
    ((st.openFd session fd).subscribed session fd.fileName mode).Subscribed := by
  intro s f hs
  rcases Leader.listens_subscribed hs with hs | ⟨rfl, rfl⟩
  · obtain ⟨p, hp, hname⟩ := h s f hs
    exact ⟨p, Leader.mem_openFd.mpr (Or.inl hp), hname⟩
  · exact ⟨_, Leader.mem_openFd.mpr (Or.inr ⟨rfl, rfl⟩), rfl⟩

end Updates

/-! ## What the handlers do to the registrations -/

section Handlers

variable {E : Service δ} {session : SessionId} {xid : Xid} {fd : FileHandler} {st st' : Leader δ}

theorem HandOffEnds.events {fileName : Str} (h : HandOffEnds fileName st (.ret () st')) :
    st'.file2lockChangeMap = st.file2lockChangeMap ∧
      st'.file2contentChangeMap = st.file2contentChangeMap := by
  cases h with
  | noQueue _ => exact ⟨rfl, rfl⟩
  | lastWaiter _ _ => exact ⟨rfl, rfl⟩
  | moreWaiters _ _ _ => exact ⟨rfl, rfl⟩

theorem ReleaseEnds.events (h : ReleaseEnds E session xid fd st (.ret () st')) :
    st'.file2lockChangeMap = st.file2lockChangeMap ∧
      st'.file2contentChangeMap = st.file2contentChangeMap := by
  cases h with
  | threw _ _ => exact ⟨rfl, rfl⟩
  | refused _ _ => exact ⟨rfl, rfl⟩
  | released _ _ hoff => exact hoff.events

theorem ReleaseEnds.listens (h : ReleaseEnds E session xid fd st (.ret () st')) {s : SessionId}
    {f : Str} : st'.Listens s f ↔ st.Listens s f := by
  unfold Leader.Listens
  rw [h.events.1, h.events.2]

theorem ReclaimEnds.listens {clientId : Str}
    (h : ReclaimEnds E session fd clientId st (.ret () st')) {s : SessionId} {f : Str} :
    st'.Listens s f ↔ st.Listens s f := by
  cases h with
  | notHeld _ => exact Iff.rfl
  | held _ hr => exact hr.listens

theorem ClearsQueue.listens {fileName : Str}
    (h : ClearsQueue session fileName st (some st')) {s : SessionId} {f : Str} :
    st'.Listens s f ↔ st.Listens s f := by
  cases h with
  | noQueue _ => exact Iff.rfl
  | kept _ _ _ => exact Iff.rfl
  | dropped _ _ => exact Iff.rfl

theorem DeleteEnds.listens {r : Except Unit Unit} (h : DeleteEnds E session xid fd st (.ret r st'))
    {s : SessionId} {f : Str} :
    st'.Listens s f ↔ st.Listens s f ∧ (f = fd.fileName → Refuses E fd st.db) := by
  cases h with
  | threw _ hdb => exact (and_iff_left fun _ => ⟨_, Or.inr hdb⟩).symm
  | refused _ hdb => exact (and_iff_left fun _ => ⟨_, Or.inl hdb⟩).symm
  | deleted _ hdb =>
    have hnot : ¬ Refuses E fd st.db := by
      rintro ⟨db', h | h⟩
      · rw [hdb] at h
        cases h
      · rw [hdb] at h
        cases h
    constructor
    · intro hs
      obtain ⟨hs, hf⟩ := Leader.listens_dropEvents.mp hs
      exact ⟨hs, fun heq => absurd heq hf⟩
    · rintro ⟨hs, hrefuses⟩
      exact Leader.listens_dropEvents.mpr ⟨hs, fun heq => hnot (hrefuses heq)⟩

theorem ReleaseEnds.subscribed (h : ReleaseEnds E session xid fd st (.ret () st'))
    (hsub : st.Subscribed) : st'.Subscribed :=
  hsub.grow (fun _ _ hs => h.listens.mp hs) fun _ _ hp => h.mem_fds hp

theorem ReclaimEnds.subscribed {clientId : Str}
    (h : ReclaimEnds E session fd clientId st (.ret () st')) (hsub : st.Subscribed) :
    st'.Subscribed :=
  hsub.grow (fun _ _ hs => h.listens.mp hs) fun _ _ hp => h.mem_fds hp

theorem DeleteEnds.subscribed {r : Except Unit Unit}
    (h : DeleteEnds E session xid fd st (.ret r st')) (hi : st.Indexed) (hsub : st.Subscribed) :
    st'.Subscribed := by
  have hfound : (st.entered session fd).Subscribed := hsub.foundFd fd
  cases h with
  | threw _ _ => exact hfound
  | refused _ _ => exact hfound
  | deleted _ _ =>
    intro s f hs
    obtain ⟨hs, hf⟩ := Leader.listens_dropEvents.mp hs
    obtain ⟨p, hp, hname⟩ := hfound s f hs
    have hindexed : (st.entered session fd).Indexed := hi.foundFd session fd
    refine ⟨p, (Leader.mem_dropRecords hindexed).mpr ⟨hp, ?_⟩, hname⟩
    rw [hname]
    exact hf

theorem AcquireEnds.subscribed {busy : Leader δ → Leader δ}
    (h : AcquireEnds E session xid fd busy st (.ret () st'))
    (hbusy : ∀ st₁ : Leader δ, st₁.Subscribed → (busy st₁).Subscribed) (hsub : st.Subscribed) :
    st'.Subscribed := by
  have hfound : (st.entered session fd).Subscribed := hsub.foundFd fd
  cases h with
  | threw _ _ => exact hfound
  | taken _ _ _ => exact hfound
  | busy _ _ => exact hbusy _ hfound

/-- A handle that is closed and its session no longer registered for its file. -/
theorem Leader.Subscribed.closed (hsub : st.Subscribed) (hi : st.Indexed) {p : FdRecord}
    (hp : p ∈ st.fds session) :
    ((st.removeFd session p).unsubscribed session p.value.fileName).Subscribed := by
  intro s f hs
  obtain ⟨hs, hnot⟩ := Leader.listens_unsubscribed.mp hs
  obtain ⟨q, hq, hname⟩ := hsub s f hs
  refine ⟨q, Leader.mem_removeFd.mpr ⟨hq, ?_⟩, hname⟩
  -- the two records have different allocations because they are on different files
  rintro rfl haddress
  obtain ⟨_, rfl⟩ := hi.owned s s q p hq hp haddress
  exact hnot ⟨rfl, hname.symm⟩

theorem CloseEnds.subscribed (h : CloseEnds E session xid fd st (.ret () st')) (hi : st.Indexed)
    (hsub : st.Subscribed) : st'.Subscribed := by
  have hfound : (st.entered session fd).Subscribed := hsub.foundFd fd
  have hindexed : (st.entered session fd).Indexed := hi.foundFd session fd
  cases h with
  | @deletes st₁ st₂ hc hreclaim _ hdelete =>
    have hsub₁ : st₁.Subscribed := hreclaim.subscribed hfound
    have hi₁ : st₁.Indexed := hreclaim.indexed hindexed
    have hdeleted : st₂.Subscribed := hdelete.subscribed hi₁ hsub₁
    exact hdeleted
  | @closes st₁ st₂ hc hreclaim _ hclear =>
    have hsub₁ : st₁.Subscribed := hreclaim.subscribed hfound
    have hi₁ : st₁.Indexed := hreclaim.indexed hindexed
    have hmem : (st.touchClient session).findFd session fd ∈ st₁.fds session :=
      hreclaim.mem_fds ((st.touchClient session).findFd_mem session fd)
    have hclosed := hsub₁.closed hi₁ hmem
    rw [Leader.findFd_value] at hclosed
    refine hclosed.grow (fun s f hs => ?_) fun s p hp => ?_
    · obtain ⟨hs, hnot⟩ := Leader.listens_unsubscribed.mp hs
      exact Leader.listens_unsubscribed.mpr ⟨hclear.listens.mp hs, hnot⟩
    · unfold Leader.fds at hp ⊢
      rw [Leader.logged_session2fdMap, Leader.unsubscribed_session2fdMap, hclear.fds.2.1]
      exact hp

/-- What stays registered when a handle is closed: the session itself stays
    registered for the file only if that is ephemeral and not deleted. -/
theorem CloseEnds.listens (h : CloseEnds E session xid fd st (.ret () st')) {s : SessionId}
    {f : Str} (hs : st'.Listens s f) :
    st.Listens s f ∧ (s = session → f = fd.fileName → ∃ st₁,
      ReclaimEnds E session fd (st.client session) (st.entered session fd) (.ret () st₁) ∧
      fd.fileName ∈ st₁.ephemeral (st.client session) ∧ Refuses E fd st₁.db) := by
  cases h with
  | deletes _ hreclaim heph hdelete =>
    obtain ⟨hs, hrefuses⟩ := hdelete.listens.mp hs
    exact ⟨hreclaim.listens.mp hs, fun _ hf => ⟨_, hreclaim, heph, hrefuses hf⟩⟩
  | closes _ hreclaim _ hclear =>
    obtain ⟨hs, hnot⟩ := Leader.listens_unsubscribed.mp hs
    exact ⟨hreclaim.listens.mp (hclear.listens.mp hs), fun h hf => absurd ⟨h, hf⟩ hnot⟩

theorem CloseAllEnds.subscribed {l : List FdRecord} {o : Outcome Stop (Leader δ) Unit}
    (h : CloseAllEnds E session l st o) (ho : o = .ret () st') (hi : st.Indexed)
    (hsub : st.Subscribed) : st'.Subscribed := by
  induction h with
  | done =>
    cases ho
    exact hsub
  | stopped _ => cases ho
  | next hclose _ ih => exact ih ho (hclose.indexed hi) (hclose.subscribed hi hsub)

theorem Leader.recovered_events (files : List (Str × Str)) (st : Leader δ) :
    (st.recovered files).file2lockChangeMap = st.file2lockChangeMap ∧
      (st.recovered files).file2contentChangeMap = st.file2contentChangeMap := by
  obtain ⟨held, hrecovered⟩ := st.recovered_eq files
  rw [hrecovered]
  exact ⟨rfl, rfl⟩

/-- Every input keeps it that only a session with a handle on a file is
    registered for the file. -/
theorem Handles.subscribed {input : Input} (h : Handles E st input (.ret () st'))
    (hi : st.Indexed) (hsub : st.Subscribed) : st'.Subscribed := by
  have hlogged : ∀ {l}, (st.logged l).Subscribed := hsub
  cases h with
  | @fileOpen s x name mode _ ho =>
    cases ho with
    | badArg _ _ => exact hsub
    | failed _ _ _ => exact hsub
    | @opened n db _ _ _ =>
      have hmarked : ((((st.logged [.call s x (.fileOpen name mode)]).touchClient s).setDb
          db).markedEphemeral (st.client s) name (ephemeralMode mode)).Subscribed := hsub
      exact hmarked.opened (signFd E name mode n st.masterSequenceNumber) mode
  | fileClose ho => exact ho.subscribed hi hsub
  | fileDelete ho => exact ho.subscribed hi hsub
  | getContentsAndStat ho =>
    cases ho with
    | answered _ _ _ => exact hlogged.foundFd _
  | setContents ho =>
    cases ho with
    | failed _ => exact hlogged.foundFd _
    | written _ => exact hlogged.foundFd _
  | acquire ho => exact ho.subscribed (fun _ h₁ => h₁) hsub
  | tryAcquire ho => exact ho.subscribed (fun _ h₁ => h₁) hsub
  | release ho => exact ho.subscribed hsub
  | startSession ho =>
    cases ho with
    | refused _ => exact hsub
    | started _ => exact hsub
  | @fileReopen s x fd mode => exact hlogged.opened fd mode
  | @disconnect s _ ho =>
    cases ho with
    | left hall =>
      have ht : ((st.logged [.disconnected s]).touchFds s).Subscribed := hsub.touchFds
      have hti : ((st.logged [.disconnected s]).touchFds s).Indexed :=
        hi.of_get fun w => UMap.get_touch _ _ _
      have hleft := hall.subscribed rfl hti ht
      exact hleft
  | initializeLeader ho =>
    cases ho with
    | @initialized files db _ =>
      intro s f hs
      obtain ⟨hlock, hcontent⟩ := Leader.recovered_events files
        ((st.logged [.initialized]).cleared.setDb db)
      unfold Leader.Listens at hs
      rw [hlock, hcontent] at hs
      rcases hs with hs | hs <;> cases hs

end Handlers

end SimpleChubby
