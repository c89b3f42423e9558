import SimpleChubby.Leader.Subscriptions

/-!
# What is sent to a session that has gone

`disconnect` closes the handles of a session that is no longer there. The
close of a handle releases the lock, deletes the file if it is ephemeral, and
announces both, to the session itself too if it is registered for the file; and
a lock may go to an `acquire` of the session's own. `QuietClose` is the
condition that none of this happens, read off the state before the close.
-/

namespace SimpleChubby

variable {δ : Type}

/-! ## The condition -/

section Quiet

variable (E : Service δ) (session : SessionId) (rest : List FdRecord) (fd : FileHandler)
  (st : Leader δ)

/-- The hand-off of a lock, and its announcement, pass the session by, and
    `next` holds if they come to an end. -/
def QuietHandOff (fileName : Str) (next : Prop) : Prop :=
  match st.queue fileName with
  | none => session ∉ st.file2lockChangeMap.get fileName ∧ next
  | some [] => True
  | some ((waiter, xid) :: _) => st.client waiter ≠ [] →
      (waiter = session → xid = internalXid) ∧
        session ∉ st.file2lockChangeMap.get fileName ∧ next

/-- The release of a lock passes the session by. -/
def QuietRelease (next : δ → Prop) : Prop :=
  match E.db.resetLockOwner fd.fileName fd.instanceNumber st.db with
  | .ret true db => QuietHandOff session st fd.fileName (next db)
  | .ret false db => next db
  | .stop .exception db => next db
  | .stop .assertion _ => True

/-- The deletion of an ephemeral file passes the session by; where the file is
    not deleted, the session is not registered for it, or has another handle on
    it to close. -/
def QuietDelete (db : δ) : Prop :=
  fd.fileName ∈ st.ephemeral (st.client session) →
    match E.db.checkAndDelete fd.fileName fd.instanceNumber db with
    | .ret true _ => session ∉ st.file2contentChangeMap.get fd.fileName ∧
        (getParentName fd.fileName ≠ root →
          session ∉ st.file2contentChangeMap.get (getParentName fd.fileName))
    | .stop .assertion _ => True
    | _ => fd.fileName ∈ rest.map (·.value.fileName) ∨
        (session ∉ st.file2lockChangeMap.get fd.fileName ∧
          session ∉ st.file2contentChangeMap.get fd.fileName)

/-- The close of a handle by a session that has gone passes the session by;
    `rest` are the handles it has still to close. -/
def QuietClose : Prop :=
  st.client session ≠ [] →
    if fd.fileName ∈ st.held (st.client session) then
      QuietRelease E session fd st (QuietDelete E session rest fd st)
    else QuietDelete E session rest fd st st.db

instance (fileName : Str) (next : Prop) [Decidable next] :
    Decidable (QuietHandOff session st fileName next) := by
  unfold QuietHandOff
  split <;> infer_instance

instance (next : δ → Prop) [∀ db, Decidable (next db)] :
    Decidable (QuietRelease E session fd st next) := by
  unfold QuietRelease
  split <;> infer_instance

instance (db : δ) : Decidable (QuietDelete E session rest fd st db) := by
  unfold QuietDelete
  split <;> infer_instance

instance : Decidable (QuietClose E session rest fd st) := by
  unfold QuietClose
  infer_instance

end Quiet

section Congruence

variable {E : Service δ} {session : SessionId} {rest : List FdRecord} {fd : FileHandler}
  {st st' : Leader δ} {next : Prop} {fileName : Str} {db : δ}

/-- The condition on a hand-off reads the queue, the clients and the
    registrations only. -/
theorem QuietHandOff.of_eq (h : QuietHandOff session st fileName next)
    (hqueue : st'.queue fileName = st.queue fileName) (hclient : ∀ w, st'.client w = st.client w)
    (hlock : st'.file2lockChangeMap = st.file2lockChangeMap) :
    QuietHandOff session st' fileName next := by
  unfold QuietHandOff at h ⊢
  rw [hqueue, hlock]
  simp only [hclient]
  exact h

theorem QuietRelease.of_eq {next : δ → Prop} (h : QuietRelease E session fd st next)
    (hdb : st'.db = st.db) (hqueue : st'.file2lockQueueMap = st.file2lockQueueMap)
    (hclient : ∀ w, st'.client w = st.client w)
    (hlock : st'.file2lockChangeMap = st.file2lockChangeMap) :
    QuietRelease E session fd st' next := by
  have hfile : st'.queue fd.fileName = st.queue fd.fileName := by
    unfold Leader.queue
    rw [hqueue]
  unfold QuietRelease at h ⊢
  rw [hdb]
  split at h
  · exact h.of_eq hfile hclient hlock
  · exact h
  · exact h
  · trivial

/-- The condition on a deletion reads the clients, the ephemeral files and the
    registrations only. -/
theorem QuietDelete.of_eq (h : QuietDelete E session rest fd st db)
    (hclient : st'.client session = st.client session)
    (hephemeral : st'.ephemeral (st.client session) = st.ephemeral (st.client session))
    (hlock : st'.file2lockChangeMap = st.file2lockChangeMap)
    (hcontent : st'.file2contentChangeMap = st.file2contentChangeMap) :
    QuietDelete E session rest fd st' db := by
  unfold QuietDelete at h ⊢
  rw [hclient, hephemeral, hlock, hcontent]
  exact h

end Congruence

/-! ## The close of a handle -/

section Closes

open Prog

variable {E : Service δ} {session : SessionId} {rest : List FdRecord} {fd : FileHandler}
  {st : Leader δ} {fileName : Str}

/-- Everything is sent to other sessions. -/
abbrev Leader.Avoids (st : Leader δ) (session : SessionId) (st' : Leader δ) : Prop :=
  st.Tells (· ≠ session) st'

theorem avoids_internal {st₁ : Leader δ} {body : Reply} (h : st₁.log = st.log) :
    st.Avoids session (st₁.logged (Leader.replyOf session internalXid body)) :=
  .of_log (by rw [Leader.logged_log, h, Leader.replyOf, if_pos rfl, List.append_nil])

theorem avoids_events {sessions : List SessionId} {e : ChubbyEvent}
    (h : session ∉ sessions) : SentTo (· ≠ session) (sessions.map (.event · e fileName)) :=
  .events fun _ hs heq => h (heq ▸ hs)

theorem handOff_quiet {next : Prop} (h : QuietHandOff session st fileName next) :
    wp (handOff fileName >>= fun _ => sendLockChangeEvent fileName)
      (fun _ st' => st.Avoids session st' ∧ next ∧ (∀ w, st'.client w = st.client w) ∧
        st'.client2ephemeralMap = st.client2ephemeralMap ∧
        st'.file2lockChangeMap = st.file2lockChangeMap ∧
        st'.file2contentChangeMap = st.file2contentChangeMap ∧ st'.db = st.db)
      (fun _ st' => st.Avoids session st') st := by
  unfold handOff QuietHandOff at *
  simp only [wp_bind, wp_gets]
  cases hq : st.queue fileName with
  | none =>
    simp only [hq] at h
    exact ⟨.logged (avoids_events h.1), h.2, fun _ => rfl, rfl, rfl, rfl, rfl⟩
  | some queue =>
    cases queue with
    | nil => exact .refl st
    | cons waiter rest =>
      obtain ⟨w, x⟩ := waiter
      simp only [hq] at h
      have hclient : (st.dequeue fileName w x rest).client w = st.client w := rfl
      have hpop : st.Avoids session (st.dequeue fileName w x rest) := ⟨_, .unsent rfl, rfl⟩
      simp only [wp_bind, wp_modify, wp_clientOf, wp_check, wp_reply, hclient]
      by_cases hc : st.client w = []
      · simp only [hc, ne_eq, not_true_eq_false, decide_false, Bool.false_eq_true, if_false]
        exact hpop
      · obtain ⟨hwaiter, hlisten, hnext⟩ := h hc
        simp only [hc, ne_eq, not_false_eq_true, decide_true, if_true, wp_ite,
          wp_modify, wp_pure, sendLockChangeEvent]
        have hreply : SentTo (· ≠ session) (Leader.replyOf w x (.bool true)) :=
          .replyOf fun hx heq => hx (hwaiter heq)
        have htells : st.Avoids session (st.granted w x fileName rest) :=
          hpop.trans ⟨_, hreply, rfl⟩
        have hclients : ∀ v, (st.granted w x fileName rest).client v = st.client v :=
          fun v => UMap.get_touch _ _ _
        split_ifs
        · exact ⟨htells.trans ⟨_, avoids_events hlisten, rfl⟩, hnext, hclients, rfl, rfl, rfl, rfl⟩
        · exact ⟨htells.trans ⟨_, avoids_events hlisten, rfl⟩, hnext, hclients, rfl, rfl, rfl, rfl⟩

/-- The release of the lock, for a client that is known, up to the rest of the close. -/
theorem release_quiet {next : δ → Prop} (hc : st.client session ≠ [])
    (h : QuietRelease E session fd st next) :
    wp (release E fd session internalXid)
      (fun _ st' => st.Avoids session st' ∧ next st'.db ∧ (∀ w, st'.client w = st.client w) ∧
        st'.client2ephemeralMap = st.client2ephemeralMap ∧
        st'.file2lockChangeMap = st.file2lockChangeMap ∧
        st'.file2contentChangeMap = st.file2contentChangeMap)
      (fun _ st' => st.Avoids session st') st := by
  have hclients : ∀ w, (st.entered session fd).client w = st.client w :=
    fun _ => UMap.get_touch _ _ _
  unfold release
  simp only [wp_bind, wp_clientOf, wp_check, hc, ne_eq, not_false_eq_true, decide_true, if_true,
    wp_findFd, Leader.findFd_value]
  unfold QuietRelease at h
  refine wp_callDb (fun reset db hdb => ?_) (fun db hdb => ?_) (fun db hdb => .of_log rfl)
  · rw [show E.db.resetLockOwner fd.fileName fd.instanceNumber st.db = _ from hdb] at h
    cases reset with
    | false =>
      simp only [wp_reply]
      exact ⟨avoids_internal rfl, h, hclients, rfl, rfl, rfl⟩
    | true =>
      have hquiet : QuietHandOff session (st.released session internalXid fd db) fd.fileName
          (next db) := QuietHandOff.of_eq h rfl hclients rfl
      have hreleased : st.Avoids session (st.released session internalXid fd db) :=
        avoids_internal rfl
      have hoff := handOff_quiet hquiet
      simp only [finishRelease, wp_bind, wp_modify, wp_reply] at hoff ⊢
      refine wp_mono hoff (fun _ st' h' => ?_) (fun _ st' h' => hreleased.trans h')
      obtain ⟨htells, hnext, hclient, heph, hlock, hcontent, hdb'⟩ := h'
      exact ⟨hreleased.trans htells, (congrArg next hdb').mpr hnext,
        fun w => (hclient w).trans (hclients w), heph, hlock, hcontent⟩
  · rw [show E.db.resetLockOwner fd.fileName fd.instanceNumber st.db = _ from hdb] at h
    simp only [wp_reply]
    exact ⟨avoids_internal rfl, h, hclients, rfl, rfl, rfl⟩

/-- The deletion of an ephemeral file. -/
theorem fileDelete_quiet (hc : st.client session ≠ [])
    (hmem : fd.fileName ∈ st.ephemeral (st.client session))
    (h : QuietDelete E session rest fd st st.db) :
    wp (fileDelete E fd session internalXid)
      (fun _ st' => st.Avoids session st' ∧
        (st'.Listens session fd.fileName → fd.fileName ∈ rest.map (·.value.fileName)))
      (fun _ st' => st.Avoids session st') st := by
  have hlater : (fd.fileName ∈ rest.map (·.value.fileName) ∨
      (session ∉ st.file2lockChangeMap.get fd.fileName ∧
        session ∉ st.file2contentChangeMap.get fd.fileName)) →
      st.Listens session fd.fileName → fd.fileName ∈ rest.map (·.value.fileName) := by
    rintro (hrest | ⟨hlock, hcontent⟩) hlistens
    · exact hrest
    · exact absurd hlistens (not_or.mpr ⟨hlock, hcontent⟩)
  have hquiet := h hmem
  unfold fileDelete
  simp only [wp_bind, wp_clientOf, wp_check, hc, ne_eq, not_false_eq_true, decide_true, if_true,
    wp_findFd, Leader.findFd_value]
  refine wp_callDb (fun gone db hdb => ?_) (fun db hdb => ?_) (fun db hdb => .of_log rfl)
  · rw [show E.db.checkAndDelete fd.fileName fd.instanceNumber st.db = _ from hdb] at hquiet
    cases gone with
    | false =>
      simp only [wp_bind, wp_reply, wp_pure]
      exact ⟨avoids_internal rfl, hlater hquiet⟩
    | true =>
      simp only [finishDelete, Leader.findFd_value, wp_bind, wp_modify, wp_gets, wp_check,
        wp_reply, wp_pure, sendContentChangeEvent, sendParentEvent, wp_ite]
      have hdeleted : st.Avoids session (st.deleted E session internalXid fd db) :=
        avoids_internal rfl
      have hgone : ∀ st₁ : Leader δ, ¬ (st₁.dropEvents fd.fileName).Listens session fd.fileName :=
        fun st₁ hs => (Leader.listens_dropEvents.mp hs).2 rfl
      have hannounced : st.Avoids session ((st.deleted E session internalXid fd db).logged
          ((st.deleted E session internalXid fd db).contentEvents fd.fileName)) :=
        hdeleted.trans (.logged (avoids_events hquiet.1))
      split_ifs with hpresent hroot
      · exact ⟨hannounced.trans (.of_log rfl), fun hs => absurd hs (hgone _)⟩
      · exact ⟨hannounced.trans (.logged (avoids_events (hquiet.2 hroot))),
          fun hs => absurd hs (hgone _)⟩
      · exact .of_log rfl
  · rw [show E.db.checkAndDelete fd.fileName fd.instanceNumber st.db = _ from hdb] at hquiet
    simp only [wp_ite, wp_bind, wp_reply, wp_pure]
    split_ifs
    · exact ⟨.of_log rfl, hlater hquiet⟩
    · exact ⟨avoids_internal rfl, hlater hquiet⟩

theorem clearLockQueue_log :
    wp (clearLockQueue session fileName) (fun _ st' => st'.log = st.log)
      (fun _ st' => st'.log = st.log) st := by
  simp only [clearLockQueue, wp_bind, wp_gets]
  cases st.queue fileName with
  | none => rfl
  | some queue =>
    cases hscan : scanQueue session queue with
    | none =>
      simp only [hscan, wp_halt]
    | some copy =>
      simp only [hscan, wp_ite, wp_modify, wp_pure]
      split_ifs
      · rfl

/-- The close of a file that stays. -/
theorem finishClose_quiet {p : FdRecord} :
    wp (finishClose p session internalXid)
      (fun _ st' => st.Avoids session st' ∧ ¬ st'.Listens session p.value.fileName)
      (fun _ st' => st.Avoids session st') st := by
  simp only [finishClose, wp_bind, wp_modify]
  refine wp_mono clearLockQueue_log (fun _ st' hlog => ⟨avoids_internal hlog, fun hs => ?_⟩)
    (fun _ _ hlog => .of_log hlog)
  exact (Leader.listens_unsubscribed.mp hs).2 ⟨rfl, rfl⟩

/-- What follows the release of the lock, in a state that `st` has got to by then. -/
theorem closeReclaimed_quiet {p : FdRecord} (hp : p.value = fd) (hc : st.client session ≠ [])
    {st₁ : Leader δ} (htells : st.Avoids session st₁)
    (hdelete : QuietDelete E session rest fd st st₁.db)
    (hclient : ∀ w, st₁.client w = st.client w)
    (heph : st₁.client2ephemeralMap = st.client2ephemeralMap)
    (hlock : st₁.file2lockChangeMap = st.file2lockChangeMap)
    (hcontent : st₁.file2contentChangeMap = st.file2contentChangeMap) :
    wp (closeReclaimed E session internalXid (st.client session) fd p)
      (fun _ st' => st.Avoids session st' ∧
        (st'.Listens session fd.fileName → fd.fileName ∈ rest.map (·.value.fileName)))
      (fun _ st' => st.Avoids session st') st₁ := by
  have hread : (st₁.touchEphemeral (st.client session)).ephemeral (st.client session) =
      st.ephemeral (st.client session) := by
    unfold Leader.ephemeral
    rw [Leader.touchEphemeral_client2ephemeralMap, UMap.get_touch, heph]
  have hown : (st₁.touchEphemeral (st.client session)).client session = st.client session :=
    hclient session
  have htouched : st.Avoids session (st₁.touchEphemeral (st.client session)) :=
    htells.trans (.of_log rfl)
  have hquiet₁ := hdelete.of_eq hown hread hlock hcontent
  simp only [closeReclaimed, wp_bind, wp_modify, wp_gets, wp_ite, hread, decide_eq_true_eq]
  split_ifs with hmem
  · have hknown : (st₁.touchEphemeral (st.client session)).client session ≠ [] := by
      rw [hown]
      exact hc
    have hmarked : fd.fileName ∈ (st₁.touchEphemeral (st.client session)).ephemeral
        ((st₁.touchEphemeral (st.client session)).client session) := by
      rw [hown, hread]
      exact hmem
    refine wp_mono (fileDelete_quiet hknown hmarked hquiet₁) (fun r st₂ h₂ => ?_)
      (fun _ _ h₂ => htouched.trans h₂)
    obtain ⟨htells₂, hlistens⟩ := h₂
    rcases r with ⟨⟨⟩⟩ | ⟨⟨⟩⟩
    · exact ⟨htouched.trans (htells₂.trans (avoids_internal rfl)), hlistens⟩
    · exact ⟨htouched.trans (htells₂.trans (avoids_internal rfl)), hlistens⟩
  · refine wp_mono finishClose_quiet (fun _ st₂ h₂ => ?_) (fun _ _ h₂ => htouched.trans h₂)
    rw [hp] at h₂
    exact ⟨htouched.trans h₂.1, fun hs => absurd hs h₂.2⟩

/-- A close that meets the condition sends the session nothing, however it ends,
    and leaves it registered for the file only if it has another handle on it. -/
theorem fileClose_quiet (h : QuietClose E session rest fd st) :
    wp (fileClose E fd session internalXid)
      (fun _ st' => st.Avoids session st' ∧
        (st'.Listens session fd.fileName → fd.fileName ∈ rest.map (·.value.fileName)))
      (fun _ st' => st.Avoids session st') st := by
  unfold fileClose
  simp only [wp_bind, wp_clientOf, wp_check]
  by_cases hc : st.client session = []
  · simp only [hc, ne_eq, not_true_eq_false, decide_false, Bool.false_eq_true, if_false]
    exact .of_log rfl
  simp only [hc, ne_eq, not_false_eq_true, decide_true, if_true, wp_findFd, wp_bind, wp_gets,
    Leader.findFd_value]
  have hclients : ∀ w, (st.entered session fd).client w = st.client w :=
    fun _ => UMap.get_touch _ _ _
  have hquiet := h hc
  have hp := (st.touchClient session).findFd_value session fd
  have hentered : st.Avoids session (st.entered session fd) := .of_log rfl
  by_cases hheld : fd.fileName ∈ st.held (st.client session)
  · have hmem : fd.fileName ∈ (st.entered session fd).held (st.client session) := hheld
    rw [if_pos hheld] at hquiet
    simp only [hmem, decide_true, if_true, wp_bind]
    have hown : (st.entered session fd).client session ≠ [] := (hclients session).symm ▸ hc
    have hrelease : QuietRelease E session fd (st.entered session fd)
        (QuietDelete E session rest fd st) := hquiet.of_eq rfl rfl hclients rfl
    refine wp_mono (release_quiet hown hrelease) (fun _ st₁ h₁ => ?_)
      (fun _ _ h₁ => hentered.trans h₁)
    obtain ⟨htells, hdelete, hclient, heph, hlock, hcontent⟩ := h₁
    exact closeReclaimed_quiet hp hc (hentered.trans htells) hdelete
      (fun w => (hclient w).trans (hclients w)) heph hlock hcontent
  · have hmem : fd.fileName ∉ (st.entered session fd).held (st.client session) := hheld
    rw [if_neg hheld] at hquiet
    simp only [hmem, decide_false, Bool.false_eq_true, if_false]
    exact closeReclaimed_quiet hp hc hentered hquiet hclients rfl rfl rfl

end Closes

end SimpleChubby
