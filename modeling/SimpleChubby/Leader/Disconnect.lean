import SimpleChubby.Leader.Subscriptions

/-!
# What a disconnect leaves behind

`disconnect` cleans up handle by handle. The close of a handle leaves the
session in the maps in two ways: an ephemeral file that the database does not
delete makes `fileClose` return early, and a lock queue is erased only when its
copy comes out empty, so a session that is not the last waiter stays in it.
Whether anything is left of a file is decided when the last handle on it is
closed; a file without a handle is not cleaned up at all.
-/

namespace SimpleChubby

variable {δ : Type}

/-- The session waits for the lock of the file. -/
def Leader.Waits (st : Leader δ) (session : SessionId) (fileName : Str) : Prop :=
  ∃ x, (session, x) ∈ st.file2lockQueueMap.get fileName

/-- The session has a handle on the file open. -/
def Leader.Opens (st : Leader δ) (session : SessionId) (fileName : Str) : Prop :=
  ∃ p ∈ st.fds session, p.value.fileName = fileName

section Tidy

variable (E : Service δ) (session : SessionId) (fd : FileHandler) (st : Leader δ)

/-- The close of the last handle on a file, once the lock is released, leaves
    nothing: an ephemeral file is deleted, and of another file nobody else waits
    for the lock. -/
def TidyEnd (db : δ) (queue : List (SessionId × Xid)) : Prop :=
  if fd.fileName ∈ st.ephemeral (st.client session) then
    ∃ db', E.db.checkAndDelete fd.fileName fd.instanceNumber db = .ret true db'
  else queue.length ≤ 1

/-- The close of the last handle on a file leaves nothing, read off the state
    before the close. A lock that is released goes to the first waiter. -/
def TidyClose : Prop :=
  if fd.fileName ∈ st.held (st.client session) then
    match E.db.resetLockOwner fd.fileName fd.instanceNumber st.db with
    | .ret true db => TidyEnd E session fd st db (st.file2lockQueueMap.get fd.fileName).tail
    | .ret false db => TidyEnd E session fd st db (st.file2lockQueueMap.get fd.fileName)
    | .stop _ db => TidyEnd E session fd st db (st.file2lockQueueMap.get fd.fileName)
  else TidyEnd E session fd st st.db (st.file2lockQueueMap.get fd.fileName)

/-- In the loop of `disconnect` over a list of handles, every close of the last
    handle on a file leaves nothing. -/
def Tidily : List FdRecord → Leader δ → Prop
  | [], _ => True
  | p :: rest, st =>
    (p.value.fileName ∉ rest.map (·.value.fileName) → TidyClose E session p.value st) ∧
      ∀ st', fileClose E p.value session internalXid st = .ret () st' → Tidily rest st'

/-- The session waits for files only that it has open, and its handles are
    closed tidily. -/
def LeavesNothing : Prop :=
  (∀ f, st.Waits session f → st.Opens session f) ∧
    Tidily E session (st.fds session) (st.touchFds session)

end Tidy

/-! ## What a close does to the lock queues -/

section Queues

variable {E : Service δ} {session : SessionId} {xid : Xid} {fd : FileHandler} {st st' : Leader δ}
  {fileName : Str}

/-- The hand-off takes the first waiter off the queue, if there is one. -/
theorem HandOffEnds.queues (h : HandOffEnds fileName st (.ret () st')) (g : Str) :
    st'.file2lockQueueMap.get g =
      if g = fileName then (st.file2lockQueueMap.get fileName).tail
      else st.file2lockQueueMap.get g := by
  cases h with
  | noQueue hq =>
    split_ifs with hg
    · rw [hg, UMap.get_of_find_none hq]
      rfl
    · rfl
  | @lastWaiter w x hq _ =>
    show ((st.file2lockQueueMap.set fileName []).erase fileName).get g = _
    rw [UMap.get_erase, UMap.get_set]
    split_ifs with hg
    · rw [UMap.get_of_find_some hq]
      rfl
    · rfl
  | @moreWaiters w x rest hq _ _ =>
    show (st.file2lockQueueMap.set fileName rest).get g = _
    rw [UMap.get_set]
    split_ifs with hg
    · rw [UMap.get_of_find_some hq]
      rfl
    · rfl

theorem HandOffEnds.marks (h : HandOffEnds fileName st (.ret () st')) :
    st'.client2ephemeralMap = st.client2ephemeralMap := by
  cases h with
  | noQueue _ => rfl
  | lastWaiter _ _ => rfl
  | moreWaiters _ _ _ => rfl

/-- Reclaiming the lock leaves the other queues and the ephemeral files alone. -/
theorem ReclaimEnds.frame {clientId : Str}
    (h : ReclaimEnds E session fd clientId st (.ret () st')) :
    (∀ g, g ≠ fd.fileName → st'.file2lockQueueMap.get g = st.file2lockQueueMap.get g) ∧
      st'.client2ephemeralMap = st.client2ephemeralMap := by
  cases h with
  | notHeld _ => exact ⟨fun _ _ => rfl, rfl⟩
  | held _ hr =>
    cases hr with
    | threw _ _ => exact ⟨fun _ _ => rfl, rfl⟩
    | refused _ _ => exact ⟨fun _ _ => rfl, rfl⟩
    | @released db st₁ _ _ hoff =>
      refine ⟨fun g hg => ?_, hoff.marks⟩
      have hqueue := hoff.queues g
      rw [if_neg hg] at hqueue
      exact hqueue

/-- The ephemeral files are as they were when the lock has been reclaimed. -/
theorem ReclaimEnds.ephemeral_eq {clientId c : Str}
    (h : ReclaimEnds E session fd clientId (st.entered session fd) (.ret () st')) :
    st'.ephemeral c = st.ephemeral c := by
  unfold Leader.ephemeral
  rw [h.frame.2]
  rfl

theorem ReclaimEnds.ephemeral_touched {clientId c d : Str}
    (h : ReclaimEnds E session fd clientId (st.entered session fd) (.ret () st')) :
    (st'.touchEphemeral d).ephemeral c = st.ephemeral c := by
  rw [← h.ephemeral_eq]
  exact UMap.get_touch _ _ _

theorem ReclaimEnds.mem_ephemeral {st₁ : Leader δ} {clientId c g : Str}
    (h : ReclaimEnds E session fd clientId (st.entered session fd) (.ret () st₁)) :
    g ∈ st₁.ephemeral c ↔ g ∈ st.ephemeral c := by
  rw [h.ephemeral_eq]

/-- The condition on a close, read off the state in which the lock is reclaimed. -/
theorem ReclaimEnds.tidy
    (h : ReclaimEnds E session fd (st.client session) (st.entered session fd) (.ret () st')) :
    TidyClose E session fd st ↔
      TidyEnd E session fd st st'.db (st'.file2lockQueueMap.get fd.fileName) := by
  unfold TidyClose
  cases h with
  | notHeld hheld =>
    rw [if_neg (show fd.fileName ∉ st.held (st.client session) from hheld)]
    exact Iff.rfl
  | held hheld hr =>
    rw [if_pos (show fd.fileName ∈ st.held (st.client session) from hheld)]
    cases hr with
    | threw _ hdb =>
      rw [show E.db.resetLockOwner fd.fileName fd.instanceNumber st.db = _ from hdb]
      exact Iff.rfl
    | refused _ hdb =>
      rw [show E.db.resetLockOwner fd.fileName fd.instanceNumber st.db = _ from hdb]
      exact Iff.rfl
    | @released db st₁ _ hdb hoff =>
      rw [show E.db.resetLockOwner fd.fileName fd.instanceNumber st.db = _ from hdb]
      have hqueue := hoff.queues fd.fileName
      have hlast := hoff.db
      rw [if_pos rfl] at hqueue
      show TidyEnd _ _ _ _ _ _ ↔ TidyEnd _ _ _ _ st₁.db (st₁.file2lockQueueMap.get fd.fileName)
      rw [hqueue, hlast]
      exact Iff.rfl

/-- After "clear lock queue" the session waits still if somebody waited behind it. -/
theorem ClearsQueue.waits (h : ClearsQueue session fileName st (some st')) :
    st'.Waits session fileName ↔ ¬ (st.file2lockQueueMap.get fileName).length ≤ 1 := by
  unfold Leader.Waits
  cases h with
  | noQueue hq =>
    rw [UMap.get_of_find_none hq]
    refine iff_of_false ?_ (fun h => h (Nat.zero_le 1))
    rintro ⟨x, hx⟩
    cases hx
  | @kept queue copy hq hscan hcopy =>
    rw [UMap.get_of_find_some hq]
    cases queue with
    | nil => exact absurd (Option.some.inj hscan).symm hcopy
    | cons waiter rest =>
      simp only [scanQueue] at hscan
      split_ifs at hscan with hmine
      obtain rfl := Option.some.inj hscan
      have hlength := List.length_pos_iff.mpr hcopy
      refine iff_of_true ⟨waiter.2, ?_⟩ ?_
      · rw [← hmine]
        exact List.mem_cons_self
      · rw [List.length_cons]
        omega
  | @dropped queue hq hscan =>
    rw [UMap.get_of_find_some hq, Leader.dropQueue_file2lockQueueMap, UMap.get_erase, if_pos rfl]
    refine iff_of_false ?_ (fun h => h ?_)
    · rintro ⟨x, hx⟩
      cases hx
    · cases queue with
      | nil => exact Nat.zero_le 1
      | cons waiter rest =>
        simp only [scanQueue] at hscan
        split_ifs at hscan
        rw [Option.some.inj hscan]
        exact Nat.le_refl 1

theorem ClearsQueue.frame (h : ClearsQueue session fileName st (some st')) :
    (∀ g, g ≠ fileName → st'.file2lockQueueMap.get g = st.file2lockQueueMap.get g) ∧
      st'.client2ephemeralMap = st.client2ephemeralMap := by
  cases h with
  | noQueue _ => exact ⟨fun _ _ => rfl, rfl⟩
  | kept _ _ _ => exact ⟨fun _ _ => rfl, rfl⟩
  | dropped _ _ =>
    refine ⟨fun g hg => ?_, rfl⟩
    rw [Leader.dropQueue_file2lockQueueMap, UMap.get_erase, if_neg hg]

/-- They are so too when the record has been removed and the queue cleared. -/
theorem ReclaimEnds.ephemeral_closed {clientId c : Str} {st₁ st₂ : Leader δ} {p : FdRecord}
    (h : ReclaimEnds E session fd clientId (st.entered session fd) (.ret () st₁))
    (hclear : ClearsQueue session fileName ((st₁.touchEphemeral clientId).removeFd session p)
      (some st₂)) : st₂.ephemeral c = st.ephemeral c := by
  rw [← h.ephemeral_touched (d := clientId)]
  unfold Leader.ephemeral
  rw [hclear.frame.2]
  rfl

end Queues

/-! ## What a close does to the handles -/

section Handles

variable {E : Service δ} {session : SessionId} {xid : Xid} {fd : FileHandler} {st st' : Leader δ}
  {fileName : Str}

/-- How many of the session's records have the fields `fd`. -/
def Leader.copies (st : Leader δ) (session : SessionId) (fd : FileHandler) : Nat :=
  ((st.fds session).map FdRecord.value).count fd

theorem Leader.copies_pos : 0 < st.copies session fd ↔ ∃ p ∈ st.fds session, p.value = fd := by
  unfold Leader.copies
  rw [List.count_pos_iff, List.mem_map]

/-- The session's list after a look-up: the handle is there, or is added. -/
theorem Leader.foundFd_fds : (st.foundFd session fd).fds session =
    if 0 < st.copies session fd then st.fds session
    else st.fds session ++ [⟨st.nextAddress, fd⟩] := by
  have hfound : ((st.fds session).find? (sameFd fd)).isSome = true ↔ 0 < st.copies session fd := by
    rw [List.find?_isSome, Leader.copies_pos]
    exact exists_congr fun p => and_congr_right fun _ => sameFd_iff
  show (st.foundFd session fd).session2fdMap.get session = _
  rw [Leader.foundFd_session2fdMap]
  by_cases hcopies : 0 < st.copies session fd
  · rw [if_pos (hfound.mpr hcopies), if_pos hcopies, UMap.get_touch]
    rfl
  · rw [if_neg (fun h => hcopies (hfound.mp h)), if_neg hcopies, UMap.get_alter, if_pos rfl,
      UMap.get_touch]
    rfl

/-- A look-up finds what an earlier one has found or added. -/
theorem Leader.findFd_again (hfds : st'.fds session = (st.foundFd session fd).fds session) :
    st'.findFd session fd = st.findFd session fd := by
  unfold Leader.findFd
  rw [hfds, Leader.foundFd_fds]
  split_ifs with hcopies
  · obtain ⟨q, hq, hvalue⟩ := Leader.copies_pos.mp hcopies
    have hfound : ((st.fds session).find? (sameFd fd)).isSome = true :=
      List.find?_isSome.mpr ⟨q, hq, sameFd_iff.mpr hvalue⟩
    obtain ⟨p, hp⟩ := Option.isSome_iff_exists.mp hfound
    rw [hp]
    rfl
  · have hnone : (st.fds session).find? (sameFd fd) = none := by
      refine List.find?_eq_none.mpr fun q hq hsame => ?_
      exact hcopies (Leader.copies_pos.mpr ⟨q, hq, sameFd_iff.mp hsame⟩)
    have hnew : sameFd fd ⟨st.nextAddress, fd⟩ = true := sameFd_iff.mpr rfl
    rw [List.find?_append, hnone, Option.none_or, List.find?_cons_of_pos hnew]
    rfl

/-- A look-up of a handle that is there changes no list. -/
theorem Leader.foundFd_fds_of_mem (h : ∃ p ∈ st.fds session, p.value = fd) (s : SessionId) :
    (st.foundFd session fd).fds s = st.fds s := by
  have hfound : ((st.fds session).find? (sameFd fd)).isSome = true := by
    rw [List.find?_isSome]
    obtain ⟨p, hp, hvalue⟩ := h
    exact ⟨p, hp, sameFd_iff.mpr hvalue⟩
  show (st.foundFd session fd).session2fdMap.get s = _
  rw [Leader.foundFd_session2fdMap, if_pos hfound, UMap.get_touch]
  rfl

theorem Leader.copies_foundFd (fd' : FileHandler) :
    (st.foundFd session fd).copies session fd' =
      if fd' = fd then max 1 (st.copies session fd) else st.copies session fd' := by
  show (((st.foundFd session fd).fds session).map FdRecord.value).count fd' = _
  rw [Leader.foundFd_fds]
  by_cases hcopies : 0 < st.copies session fd
  · rw [if_pos hcopies]
    show st.copies session fd' = _
    split_ifs with heq
    · rw [heq]
      omega
    · rfl
  · rw [if_neg hcopies, List.map_append, List.count_append]
    show st.copies session fd' + [fd].count fd' = _
    split_ifs with heq
    · rw [heq, List.count_singleton_self]
      omega
    · rw [List.count_singleton, if_neg (by simpa using Ne.symm heq), Nat.add_zero]

/-- What the close of a handle by its session leaves of the file and of the
    session's handles. -/
inductive Leaves (E : Service δ) (session : SessionId) (fd : FileHandler) (st st' : Leader δ) : Prop
  | refused : fd.fileName ∈ st.ephemeral (st.client session) → ¬ TidyClose E session fd st →
      st'.fds session = (st.foundFd session fd).fds session →
      (∀ g, g ∈ st'.ephemeral (st.client session) ↔ g ∈ st.ephemeral (st.client session)) →
      Leaves E session fd st st'
  | deleted : fd.fileName ∈ st.ephemeral (st.client session) → TidyClose E session fd st →
      (st'.fds session).Sublist ((st.foundFd session fd).fds session) →
      (∀ p, p ∈ st'.fds session ↔
        p ∈ (st.foundFd session fd).fds session ∧ p.value.fileName ≠ fd.fileName) →
      ¬ st'.Waits session fd.fileName →
      (∀ g, g ≠ fd.fileName → g ∉ st'.ephemeral (st.client session) →
        g ∉ st.ephemeral (st.client session)) →
      Leaves E session fd st st'
  | closed {p : FdRecord} : fd.fileName ∉ st.ephemeral (st.client session) →
      p ∈ (st.foundFd session fd).fds session → p.value = fd →
      st'.fds session =
        ((st.foundFd session fd).fds session).filter (fun q => q.address != p.address) →
      (st'.Waits session fd.fileName ↔ ¬ TidyClose E session fd st) →
      (∀ g, g ∈ st'.ephemeral (st.client session) ↔ g ∈ st.ephemeral (st.client session)) →
      Leaves E session fd st st'

/-- Reclaiming the lock of a handle that has been looked up changes no list. -/
theorem ReclaimEnds.fds {clientId : Str}
    (h : ReclaimEnds E session fd clientId (st.entered session fd) (.ret () st')) (s : SessionId) :
    st'.fds s = (st.foundFd session fd).fds s := by
  cases h with
  | notHeld _ => rfl
  | held _ hr =>
    have hmem : ∃ p ∈ (st.entered session fd).fds session, p.value = fd :=
      ⟨_, (st.touchClient session).findFd_mem session fd, Leader.findFd_value _ _ _⟩
    unfold Leader.fds
    rw [hr.fds.2.1]
    exact Leader.foundFd_fds_of_mem hmem s

/-- Looking the handle up again after that changes none either. -/
theorem ReclaimEnds.fds_entered {clientId : Str}
    (h : ReclaimEnds E session fd clientId (st.entered session fd) (.ret () st')) (s : SessionId) :
    ((st'.touchEphemeral clientId).entered session fd).fds s = (st.foundFd session fd).fds s := by
  have hfound : ∃ p ∈ st'.fds session, p.value = fd := by
    refine ⟨_, ?_, st.findFd_value session fd⟩
    rw [h.fds session]
    exact st.findFd_mem session fd
  rw [← h.fds s]
  exact Leader.foundFd_fds_of_mem hfound s

/-- Every close that returns is one of these. -/
theorem CloseEnds.leaves (h : CloseEnds E session internalXid fd st (.ret () st'))
    (hi : st.Indexed) : Leaves E session fd st st' := by
  have hindexed : (st.entered session fd).Indexed := hi.foundFd session fd
  cases h with
  | @deletes st₁ st₂ hc hreclaim hmem hdelete =>
    have hmarked : fd.fileName ∈ st.ephemeral (st.client session) := hreclaim.mem_ephemeral.mp hmem
    have htidy := hreclaim.tidy
    unfold TidyEnd at htidy
    rw [if_pos hmarked] at htidy
    have hread := hreclaim.fds_entered
    have hmarks : ∀ g, g ∈ (st₁.touchEphemeral (st.client session)).ephemeral (st.client session) ↔
        g ∈ st.ephemeral (st.client session) := by
      intro g
      rw [hreclaim.ephemeral_touched]
    cases hdelete with
    | threw _ hdb =>
      refine .refused hmarked ?_ (hread session) hmarks
      rw [htidy]
      rintro ⟨db', hdb'⟩
      rw [show E.db.checkAndDelete fd.fileName fd.instanceNumber st₁.db = _ from hdb] at hdb'
      cases hdb'
    | refused _ hdb =>
      refine .refused hmarked ?_ (hread session) hmarks
      rw [htidy]
      rintro ⟨db', hdb'⟩
      rw [show E.db.checkAndDelete fd.fileName fd.instanceNumber st₁.db = _ from hdb] at hdb'
      cases hdb'
    | @deleted db _ hdb =>
      have hi₁ : (st₁.touchEphemeral (st.client session)).Indexed := hreclaim.indexed hindexed
      have hi₂ : ((st₁.touchEphemeral (st.client session)).entered session fd).Indexed :=
        hi₁.foundFd session fd
      have hclient : (st₁.touchEphemeral (st.client session)).client session = st.client session :=
        hreclaim.client session
      refine .deleted hmarked (htidy.mpr ⟨db, hdb⟩) ?_ (fun p => ?_) ?_ fun g hg hnot hmark => ?_
      · rw [← hread session]
        show ((((st₁.touchEphemeral (st.client session)).entered session fd).dropRecords
          fd.fileName).fds session).Sublist _
        rw [Leader.fds_dropRecords hi₂]
        exact List.filter_sublist
      · rw [← hread session]
        exact Leader.mem_dropRecords hi₂
      · rintro ⟨x, hx⟩
        rw [Leader.logged_file2lockQueueMap, Leader.dropEvents_file2lockQueueMap,
          Leader.logged_file2lockQueueMap, Leader.logged_file2lockQueueMap,
          Leader.unmarkEphemeral_file2lockQueueMap, Leader.dropQueue_file2lockQueueMap,
          UMap.get_erase, if_pos rfl] at hx
        cases hx
      · refine hnot ?_
        rw [Leader.ephemeral, Leader.logged_client2ephemeralMap]
        exact (Leader.mem_ephemeral_deleted hclient).mpr
          ⟨(hmarks g).mpr hmark, fun hcon => hg hcon.2.2⟩
  | @closes st₁ st₂ hc hreclaim hmem hclear =>
    have hmarked : fd.fileName ∉ st.ephemeral (st.client session) :=
      fun hcon => hmem (hreclaim.mem_ephemeral.mpr hcon)
    have htidy := hreclaim.tidy
    unfold TidyEnd at htidy
    rw [if_neg hmarked] at htidy
    refine .closed hmarked (st.findFd_mem session fd) (st.findFd_value session fd) ?_ ?_ fun g => ?_
    · show st₂.fds session = _
      rw [hclear.fds_eq, Leader.fds_removeFd, if_pos rfl, ← hreclaim.fds]
      rfl
    · rw [htidy]
      exact hclear.waits
    · have hkept := hreclaim.ephemeral_closed (c := st.client session) hclear
      show g ∈ st₂.ephemeral (st.client session) ↔ _
      rw [hkept]

/-- A deletion empties the queue of its file, and leaves the others. -/
theorem DeleteEnds.get_queue {r : Except Unit Unit}
    (h : DeleteEnds E session xid fd st (.ret r st')) (g : Str) :
    st'.file2lockQueueMap.get g = st.file2lockQueueMap.get g ∨
      g = fd.fileName ∧ st'.file2lockQueueMap.get g = [] := by
  cases h with
  | threw _ _ => exact Or.inl rfl
  | refused _ _ => exact Or.inl rfl
  | deleted _ _ =>
    rw [Leader.dropEvents_file2lockQueueMap, Leader.logged_file2lockQueueMap,
      Leader.logged_file2lockQueueMap, Leader.unmarkEphemeral_file2lockQueueMap,
      Leader.dropQueue_file2lockQueueMap, UMap.get_erase]
    split_ifs with hg
    · exact Or.inr ⟨hg, rfl⟩
    · exact Or.inl rfl

/-- The queues of other files stay as they are. -/
theorem CloseEnds.queues_other (h : CloseEnds E session xid fd st (.ret () st')) {g : Str}
    (hg : g ≠ fd.fileName) : st'.file2lockQueueMap.get g = st.file2lockQueueMap.get g := by
  cases h with
  | @deletes st₁ st₂ _ hreclaim _ hdelete =>
    have hreclaimed : st₁.file2lockQueueMap.get g = st.file2lockQueueMap.get g :=
      hreclaim.frame.1 g hg
    rcases hdelete.get_queue g with hkept | ⟨hcon, _⟩
    · exact hkept.trans hreclaimed
    · exact absurd hcon hg
  | closes _ hreclaim _ hclear => exact (hclear.frame.1 g hg).trans (hreclaim.frame.1 g hg)

/-- No queue grows. -/
theorem CloseEnds.queue_length (h : CloseEnds E session xid fd st (.ret () st')) (g : Str) :
    (st'.file2lockQueueMap.get g).length ≤ (st.file2lockQueueMap.get g).length := by
  by_cases hg : g = fd.fileName
  · subst hg
    have hreclaims : ∀ st₁ : Leader δ, ReclaimEnds E session fd (st.client session)
        (st.entered session fd) (.ret () st₁) →
        (st₁.file2lockQueueMap.get fd.fileName).length ≤
          (st.file2lockQueueMap.get fd.fileName).length := by
      intro st₁ hreclaim
      cases hreclaim with
      | notHeld _ => exact Nat.le_refl _
      | held _ hr =>
        cases hr with
        | threw _ _ => exact Nat.le_refl _
        | refused _ _ => exact Nat.le_refl _
        | released _ _ hoff =>
          rw [Leader.logged_file2lockQueueMap, hoff.queues, if_pos rfl, List.length_tail]
          exact Nat.sub_le _ _
    cases h with
    | @deletes st₁ st₂ _ hreclaim _ hdelete =>
      have hreclaimed := hreclaims st₁ hreclaim
      rcases hdelete.get_queue fd.fileName with hkept | ⟨_, hempty⟩
      · exact hkept ▸ hreclaimed
      · rw [Leader.logged_file2lockQueueMap, hempty]
        exact Nat.zero_le _
    | @closes st₁ st₂ _ hreclaim _ hclear =>
      have hreclaimed := hreclaims st₁ hreclaim
      cases hclear with
      | noQueue _ => exact hreclaimed
      | kept _ _ _ => exact hreclaimed
      | dropped _ _ =>
        rw [Leader.logged_file2lockQueueMap, Leader.unsubscribed_file2lockQueueMap,
          Leader.dropQueue_file2lockQueueMap, UMap.get_erase, if_pos rfl]
        exact Nat.zero_le _
  · rw [h.queues_other hg]

/-- The session's handles are those still to be closed, except for files that
    are ephemeral for its client. -/
def Accounted (session : SessionId) (rest : List FdRecord) (st : Leader δ) : Prop :=
  ∀ fd, fd.fileName ∉ st.ephemeral (st.client session) →
    st.copies session fd ≤ (rest.map FdRecord.value).count fd

theorem accounted_fds : Accounted session (st.fds session) st := fun _ _ => Nat.le_refl _

/-- Removing a record removes one with its fields. -/
theorem count_removed {l : List FdRecord} {q : FdRecord} (hq : q ∈ l) (hvalue : q.value = fd) :
    ((l.filter fun r => r.address != q.address).map FdRecord.value).count fd + 1 ≤
      (l.map FdRecord.value).count fd := by
  have hperm := List.perm_cons_erase hq
  have hall := (hperm.map FdRecord.value).count_eq fd
  have hkept := ((hperm.filter fun r => r.address != q.address).map FdRecord.value).count_eq fd
  rw [List.filter_cons_of_neg (by simp)] at hkept
  rw [List.map_cons, hvalue, List.count_cons_self] at hall
  have hsublist : ((l.erase q).filter fun r => r.address != q.address).Sublist (l.erase q) :=
    List.filter_sublist
  have hless := (hsublist.map FdRecord.value).count_le fd
  omega

theorem Leaves.accounted {p : FdRecord} {rest : List FdRecord}
    (h : Leaves E session p.value st st') (hclient : st'.client session = st.client session)
    (hacc : Accounted session (p :: rest) st) : Accounted session rest st' := by
  intro fd heph
  rw [hclient] at heph
  -- the handle that is closed has been looked up, and is the first of the list
  have hfound : (st.foundFd session p.value).copies session fd =
      if fd = p.value then max 1 (st.copies session p.value) else st.copies session fd :=
    Leader.copies_foundFd fd
  have hcount : ((p :: rest).map FdRecord.value).count fd =
      (rest.map FdRecord.value).count fd + if fd = p.value then 1 else 0 := by
    rw [List.map_cons, List.count_cons]
    by_cases heq : fd = p.value
    · simp [heq]
    · simp [heq, Ne.symm heq]
  cases h with
  | refused hmarked _ hfds hmarks =>
    have hne : fd ≠ p.value := by
      rintro rfl
      exact heph ((hmarks _).mpr hmarked)
    have hstart := hacc fd fun hmem => heph ((hmarks _).mpr hmem)
    rw [if_neg hne] at hfound hcount
    have hsame : st'.copies session fd = (st.foundFd session p.value).copies session fd := by
      unfold Leader.copies
      rw [hfds]
    omega
  | deleted _ _ hsublist hmem _ hmarks =>
    by_cases hname : fd.fileName = p.value.fileName
    · have hnone : ¬ 0 < st'.copies session fd := by
        rw [Leader.copies_pos]
        rintro ⟨q, hq, rfl⟩
        exact ((hmem q).mp hq).2 hname
      omega
    · have hne : fd ≠ p.value := by
        rintro rfl
        exact hname rfl
      have hstart := hacc fd (hmarks _ hname heph)
      rw [if_neg hne] at hfound hcount
      have hless : st'.copies session fd ≤ (st.foundFd session p.value).copies session fd :=
        (hsublist.map FdRecord.value).count_le fd
      omega
  | @closed q hnot hq hvalue hfds _ hmarks =>
    have hstart := hacc fd fun hmem => heph ((hmarks _).mpr hmem)
    have hsublist : (st'.fds session).Sublist ((st.foundFd session p.value).fds session) := by
      rw [hfds]
      exact List.filter_sublist
    have hless : st'.copies session fd ≤ (st.foundFd session p.value).copies session fd :=
      (hsublist.map FdRecord.value).count_le fd
    by_cases hne : fd = p.value
    · subst hne
      have hremoved := count_removed hq hvalue
      rw [← hfds] at hremoved
      have hdrop : st'.copies session p.value + 1 ≤
          (st.foundFd session p.value).copies session p.value := hremoved
      rw [if_pos rfl] at hfound hcount
      omega
    · rw [if_neg hne] at hfound hcount
      omega

/-- After the last close on a file something of the session is left there
    exactly if that close was not tidy. -/
theorem Leaves.last {p : FdRecord} {rest : List FdRecord} (h : Leaves E session p.value st st')
    (hclient : st'.client session = st.client session)
    (hacc : Accounted session (p :: rest) st)
    (hlast : p.value.fileName ∉ rest.map (·.value.fileName)) :
    (¬ st'.Opens session p.value.fileName ∧ ¬ st'.Waits session p.value.fileName) ↔
      TidyClose E session p.value st := by
  have hafter := h.accounted hclient hacc
  cases h with
  | refused _ hnot hfds _ =>
    refine iff_of_false (fun hcon => hcon.1 ?_) hnot
    refine ⟨st.findFd session p.value, ?_, ?_⟩
    · rw [hfds]
      exact st.findFd_mem session p.value
    · rw [Leader.findFd_value]
  | deleted _ htidy _ hmem hwaits _ =>
    refine iff_of_true ⟨?_, hwaits⟩ htidy
    rintro ⟨q, hq, hname⟩
    exact ((hmem q).mp hq).2 hname
  | closed hnot _ _ _ hwaits hmarks =>
    -- no handle on the file is left, since none is to be closed
    have hnone : ¬ st'.Opens session p.value.fileName := by
      rintro ⟨q, hq, hname⟩
      have hunmarked : q.value.fileName ∉ st'.ephemeral (st'.client session) := by
        rw [hname, hclient]
        exact fun hmem => hnot ((hmarks _).mp hmem)
      have hcount := hafter q.value hunmarked
      have hpos := Leader.copies_pos.mpr ⟨q, hq, rfl⟩
      have hrest := List.count_pos_iff.mp (Nat.lt_of_lt_of_le hpos hcount)
      obtain ⟨r, hr, hvalue⟩ := List.mem_map.mp hrest
      refine hlast (List.mem_map.mpr ⟨r, hr, ?_⟩)
      rw [hvalue]
      exact hname
    rw [and_iff_right hnone, hwaits, not_not]

end Handles

/-! ## The whole loop -/

section Loop

variable {E : Service δ} {session : SessionId} {st st' : Leader δ}

/-- The closes are tidy if no file is ephemeral for the client and no lock has two waiters. -/
theorem tidily_of_alone (l : List FdRecord) (hi : st.Indexed)
    (hmarks : ∀ p ∈ l, p.value.fileName ∉ st.ephemeral (st.client session))
    (halone : ∀ p ∈ l, (st.file2lockQueueMap.get p.value.fileName).length ≤ 1) :
    Tidily E session l st := by
  induction l generalizing st with
  | nil => trivial
  | cons p rest ih =>
    have hmark := hmarks p List.mem_cons_self
    have hlone := halone p List.mem_cons_self
    constructor
    · intro _
      have hend : ∀ (db : δ) queue, queue.length ≤ 1 → TidyEnd E session p.value st db queue := by
        intro db queue hqueue
        unfold TidyEnd
        rw [if_neg hmark]
        exact hqueue
      have htail : (st.file2lockQueueMap.get p.value.fileName).tail.length ≤ 1 := by
        rw [List.length_tail]
        omega
      unfold TidyClose
      split_ifs
      · split
        · exact hend _ _ htail
        · exact hend _ _ hlone
        · exact hend _ _ hlone
      · exact hend _ _ hlone
    · intro st₁ hclose
      have hends : CloseEnds E session internalXid p.value st (.ret () st₁) := by
        rw [← hclose]
        exact fileClose_ends E session internalXid st p.value
      have hclient : st₁.client session = st.client session := by
        unfold Leader.client
        rw [hends.sessions]
      refine ih (hends.indexed hi) (fun q hq => ?_) fun q hq => ?_
      · rw [hclient]
        cases hends.leaves hi with
        | refused hmem _ _ _ => exact absurd hmem hmark
        | deleted hmem _ _ _ _ _ => exact absurd hmem hmark
        | closed _ _ _ _ _ hsame =>
          exact fun hmem => hmarks q (List.mem_cons_of_mem _ hq) ((hsame _).mp hmem)
      · exact (hends.queue_length _).trans (halone q (List.mem_cons_of_mem _ hq))

/-- Read off the state before the disconnect: a session leaves nothing if it
    waits for files only that it has open, none of which is ephemeral for its
    client or has a second waiter. -/
theorem leavesNothing_of_alone (hi : st.Indexed)
    (hwaits : ∀ f, st.Waits session f → st.Opens session f)
    (hmarks : ∀ p ∈ st.fds session, p.value.fileName ∉ st.ephemeral (st.client session))
    (halone : ∀ p ∈ st.fds session, (st.file2lockQueueMap.get p.value.fileName).length ≤ 1) :
    LeavesNothing E session st :=
  ⟨hwaits, tidily_of_alone _ (hi.of_get fun _ => UMap.get_touch _ _ _) hmarks halone⟩

end Loop

/-! ## Every reachable state -/

/-- A session with the lock of a file that it has open twice, and one that waits. -/
def holdsTwice : List Input :=
  let fd : FileHandler := ⟨0, 0, ['/', 'f'], 1, false⟩
  [.rpc 1 1 (.startSession ['1']), .rpc 2 1 (.startSession ['2']),
    .rpc 1 2 (.fileOpen ['/', 'f'] ModeFlag.createFile), .rpc 1 3 (.fileOpen ['/', 'f'] 0),
    .rpc 2 2 (.fileOpen ['/', 'f'] 0), .rpc 1 4 (.acquire fd), .rpc 2 3 (.acquire fd)]

end SimpleChubby
