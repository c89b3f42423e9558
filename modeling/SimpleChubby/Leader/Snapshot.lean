import SimpleChubby.Leader.Closing

/-!
# The snapshot of a disconnect

`disconnect` copies the list of the session's records and closes one after the
other. A close that deletes an ephemeral node frees every record on it, also
those the loop has yet to reach, and a close whose delete is refused leaves its
record for the next close of a handle with the same fields.
-/

namespace SimpleChubby

variable {δ : Type}

/-! ## The condition -/

section Condition

variable (E : Service δ) (session : SessionId)

/-- The loop of `disconnect` over a list of records. -/
abbrev closeAll (l : List FdRecord) : Api δ Unit :=
  Prog.forEach (fun p => fileClose E p.value session internalXid) l

/-- The close of a handle deletes the node. -/
def ClosesDelete (fd : FileHandler) (st : Leader δ) : Prop :=
  fd.fileName ∈ st.ephemeral (st.client session) ∧ ∃ r ∈ reclaims E session fd st,
    ∃ db, E.db.checkAndDelete fd.fileName fd.instanceNumber r.1 = .ret true db

/-- A close comes in the way of that of `q`: it is of an ephemeral node, and deletes
    it where `q` is on it too, or leaves its record where `q` has the same fields. -/
def Spoils (q : FdRecord) (fd : FileHandler) (st : Leader δ) : Prop :=
  fd.fileName ∈ st.ephemeral (st.client session) ∧
    (ClosesDelete E session fd st ∧ fd.fileName = q.value.fileName ∨
      ¬ ClosesDelete E session fd st ∧ fd = q.value)

/-- Some close of the loop over a list starts in a state with `P`. -/
def SomeClose (P : FileHandler → Leader δ → Prop) : List FdRecord → Leader δ → Prop
  | [], _ => False
  | p :: rest, st => P p.value st ∨
      ∃ st', fileClose E p.value session internalXid st = .ret () st' ∧ SomeClose P rest st'

variable (st : Leader δ)

/-- When the loop of `disconnect` reaches a record of its snapshot, the session still
    has it, and it is the one that its close takes. -/
def SnapshotOpen : Prop :=
  ∀ l q rest st₁, st.fds session = l ++ q :: rest →
    closeAll E session l (st.touchFds session) = .ret () st₁ →
      q ∈ st₁.fds session ∧ st₁.findFd session q.value = q

/-- No close that the loop makes before it reaches a record comes in its way. -/
def Unspoiled : Prop :=
  ∀ l q rest st₁, st.fds session = l ++ q :: rest →
    closeAll E session l (st.touchFds session) = .ret () st₁ →
      ¬ SomeClose E session (Spoils E session q) l (st.touchFds session)

end Condition

/-! ## One close -/

section Closes

variable {E : Service δ} {session : SessionId} {xid : Xid} {fd : FileHandler} {st st' : Leader δ}
  {p : FdRecord}

/-- What a close does to the records of its session: it removes all those on the
    file, the one that the look-up finds, or none. -/
inductive Removes (E : Service δ) (session : SessionId) (fd : FileHandler)
    (st st' : Leader δ) : Prop
  | deleted : ClosesDelete E session fd st →
      st'.fds session = ((st.foundFd session fd).fds session).filter
        (fun p => p.value.fileName ≠ fd.fileName) → Removes E session fd st st'
  | kept : fd.fileName ∈ st.ephemeral (st.client session) → ¬ ClosesDelete E session fd st →
      st'.fds session = (st.foundFd session fd).fds session → Removes E session fd st st'
  | closed : fd.fileName ∉ st.ephemeral (st.client session) →
      st'.fds session = ((st.foundFd session fd).fds session).filter
        (fun p => p.address != (st.findFd session fd).address) → Removes E session fd st st'

theorem CloseEnds.removes (h : CloseEnds E session xid fd st (.ret () st')) (hi : st.Indexed) :
    Removes E session fd st st' := by
  have hindexed : (st.entered session fd).Indexed := hi.foundFd session fd
  cases h with
  | @deletes st₁ st₂ hc hreclaim heph hdelete =>
    have hmarked : fd.fileName ∈ st.ephemeral (st.client session) := hreclaim.mem_ephemeral.mp heph
    have hread := hreclaim.fds_entered session
    have hcalls : ClosesDelete E session fd st ↔
        ∃ db, E.db.checkAndDelete fd.fileName fd.instanceNumber st₁.db = .ret true db := by
      unfold ClosesDelete
      rw [and_iff_right hmarked, ← hreclaim.reclaims hc]
      simp only [Outcome.returned, Option.map_some, Option.mem_def, Option.some.injEq,
        exists_eq_left']
    cases hdelete with
    | threw _ hdb =>
      refine .kept hmarked (fun hcon => ?_) hread
      obtain ⟨db, hdelete⟩ := hcalls.mp hcon
      cases hdelete.symm.trans hdb
    | refused _ hdb =>
      refine .kept hmarked (fun hcon => ?_) hread
      obtain ⟨db, hdelete⟩ := hcalls.mp hcon
      cases hdelete.symm.trans hdb
    | @deleted db _ hdb =>
      have hi₂ : ((st₁.touchEphemeral (st.client session)).entered session fd).Indexed :=
        (hreclaim.indexed hindexed).foundFd session fd
      refine .deleted (hcalls.mpr ⟨db, hdb⟩) ?_
      rw [← hread]
      exact Leader.fds_dropRecords hi₂ fd.fileName
  | @closes st₁ st₂ hc hreclaim heph hclear =>
    refine .closed (fun hcon => heph (hreclaim.mem_ephemeral.mpr hcon)) ?_
    show st₂.fds session = _
    rw [hclear.fds_eq, Leader.fds_removeFd, if_pos rfl, ← hreclaim.fds]
    rfl

/-- A close takes no allocation back. -/
theorem CloseEnds.allocated (h : CloseEnds E session xid fd st (.ret () st'))
    (hp : p.address < st.nextAddress) : p.address < st'.nextAddress := by
  -- the record keeps a mark that the allocations to come do not have
  have hblank : st.Blank fun a => if a = p.address then 1 else 0 := by
    intro a ha
    exact if_neg (by omega)
  by_contra hcon
  have hmark := h.blank hblank p.address (by omega)
  rw [if_pos rfl] at hmark
  cases hmark

/-- A record that has been allocated and that the session does not have does not come
    back. -/
theorem Removes.gone (h : Removes E session fd st st') (hold : p.address < st.nextAddress)
    (hp : p ∉ st.fds session) : p ∉ st'.fds session := by
  have hfound : p ∉ (st.foundFd session fd).fds session := by
    intro hmem
    rcases Leader.new_of_foundFd hmem with hmem | ⟨_, rfl⟩
    · exact hp hmem
    · exact Nat.lt_irrefl _ hold
  intro hmem
  cases h with
  | deleted _ hfds =>
    rw [hfds] at hmem
    exact hfound (List.mem_filter.mp hmem).1
  | kept _ _ hfds =>
    rw [hfds] at hmem
    exact hfound hmem
  | closed _ hfds =>
    rw [hfds] at hmem
    exact hfound (List.mem_filter.mp hmem).1

/-- A look-up adds no record with other fields. -/
theorem Leader.filter_value_foundFd {fd' : FileHandler} (hne : fd ≠ fd') :
    ((st.foundFd session fd).fds session).filter (fun p => p.value = fd') =
      (st.fds session).filter fun p => p.value = fd' := by
  rw [Leader.foundFd_fds]
  split_ifs
  · rfl
  · rw [List.filter_append]
    simp [hne]

/-- The record that a look-up finds is the first with these fields. -/
theorem Leader.findFd_of_filter {l : List FdRecord}
    (h : (st.fds session).filter (fun p => p.value = fd) = p :: l) : st.findFd session fd = p := by
  have hsame : ∀ q ∈ st.fds session, sameFd fd q = decide (q.value = fd) := by
    intro q _
    exact Bool.eq_iff_iff.mpr (by rw [sameFd_iff, decide_eq_true_iff])
  unfold Leader.findFd
  rw [← List.head?_filter, List.filter_congr hsame, h]
  rfl

theorem Leader.mem_of_filter {q : FdRecord} {before after : List FdRecord}
    (hq : (st.fds session).filter (fun p => p.value = q.value) = before ++ q :: after) :
    q ∈ st.fds session := by
  have hfilter : q ∈ (st.fds session).filter fun p => p.value = q.value := by
    rw [hq]
    exact List.mem_append_right _ List.mem_cons_self
  exact (List.mem_filter.mp hfilter).1

/-- A look-up finds `q` just if no record with its fields is in front of it. -/
theorem Leader.findFd_eq_iff (hi : st.Indexed) {q : FdRecord} {before after : List FdRecord}
    (hq : (st.fds session).filter (fun p => p.value = q.value) = before ++ q :: after) :
    st.findFd session q.value = q ↔ before = [] := by
  constructor
  · intro hfind
    cases before with
    | nil => rfl
    | cons first rest =>
      have hnodup : (first :: (rest ++ q :: after)).Nodup := by
        rw [← List.cons_append, ← hq]
        exact (hi.nodupSession session).filter _
      have hfirst : st.findFd session q.value = first := Leader.findFd_of_filter hq
      refine absurd ?_ (List.nodup_cons.mp hnodup).1
      rw [← hfirst, hfind]
      exact List.mem_append_right _ List.mem_cons_self
  · rintro rfl
    exact Leader.findFd_of_filter hq

/-- A close that deletes the node takes every record on the file. -/
theorem Removes.gone_deleted (h : Removes E session fd st st')
    (hdelete : ClosesDelete E session fd st) (hname : fd.fileName = p.value.fileName) :
    p ∉ st'.fds session := by
  cases h with
  | deleted _ hfds =>
    rw [hfds, List.mem_filter]
    simp [hname]
  | kept _ hnot _ => exact absurd hdelete hnot
  | closed hnot _ => exact absurd hdelete.1 hnot

/-- What a close that does not remove `q` leaves of the records with the fields of
    `q`: at most the first of those in front of it is gone. -/
theorem Removes.filter (h : Removes E session fd st st') (hi : st.Indexed) {q : FdRecord}
    {before after : List FdRecord}
    (hq : (st.fds session).filter (fun p => p.value = q.value) = before ++ q :: after)
    (hfront : fd = q.value → before ≠ [])
    (hkeep : ClosesDelete E session fd st → fd.fileName ≠ q.value.fileName) :
    (st'.fds session).filter (fun p => p.value = q.value) =
      (if fd = q.value ∧ fd.fileName ∉ st.ephemeral (st.client session) then before.tail
        else before) ++ q :: after := by
  have hindexed : (st.foundFd session fd).Indexed := hi.foundFd session fd
  have hfound : fd = q.value → (st.foundFd session fd).fds session = st.fds session := by
    rintro rfl
    exact Leader.foundFd_fds_of_mem ⟨q, Leader.mem_of_filter hq, rfl⟩ session
  have hlooked : ((st.foundFd session fd).fds session).filter (fun p => p.value = q.value) =
      before ++ q :: after := by
    by_cases hfd : fd = q.value
    · rw [hfound hfd, hq]
    · rw [Leader.filter_value_foundFd hfd, hq]
  cases h with
  | deleted hdelete hfds =>
    have hname := hkeep hdelete
    rw [if_neg fun hcon => hname (congrArg FileHandler.fileName hcon.1), hfds, List.filter_filter,
      ← hlooked]
    refine List.filter_congr fun p _ => ?_
    by_cases hp : p.value = q.value
    · simp [hp, Ne.symm hname]
    · simp [hp]
  | kept hmarked _ hfds =>
    rw [if_neg fun hcon => hcon.2 hmarked, hfds, hlooked]
  | closed hunmarked hfds =>
    rw [hfds, List.filter_comm, hlooked]
    by_cases hfd : fd = q.value
    · rw [if_pos ⟨hfd, hunmarked⟩]
      obtain ⟨first, rest, rfl⟩ := List.exists_cons_of_ne_nil (hfront hfd)
      subst hfd
      have hfirst : st.findFd session q.value = first := Leader.findFd_of_filter hq
      have hnodup : (first :: (rest ++ q :: after)).Nodup := by
        rw [← List.cons_append, ← hlooked]
        exact (hindexed.nodupSession session).filter _
      have hmem :
          ∀ p ∈ first :: (rest ++ q :: after), p ∈ (st.foundFd session q.value).fds session := by
        intro p hp
        rw [← List.cons_append, ← hlooked] at hp
        exact (List.mem_filter.mp hp).1
      rw [hfirst, List.cons_append, List.filter_cons_of_neg (by simp), List.tail_cons]
      refine List.filter_eq_self.mpr fun p hp => ?_
      rw [bne_iff_ne]
      intro haddress
      obtain ⟨_, rfl⟩ := hindexed.owned session session p first
        (hmem p (List.mem_cons_of_mem _ hp)) (hmem first List.mem_cons_self) haddress
      exact (List.nodup_cons.mp hnodup).1 hp
    · rw [if_neg fun hcon => hfd hcon.1]
      refine List.filter_eq_self.mpr fun p hp => ?_
      rw [← hlooked, List.mem_filter, decide_eq_true_iff] at hp
      rw [bne_iff_ne]
      intro haddress
      obtain ⟨_, rfl⟩ := hindexed.owned session session p _ hp.1 (st.findFd_mem session fd) haddress
      exact hfd ((st.findFd_value session fd).symm.trans hp.2)

end Closes

/-! ## The loop -/

section Loop

variable {E : Service δ} {session : SessionId} {st st₁ : Leader δ} {q : FdRecord}

/-- One close, and those that come after it. -/
theorem someClose_cons {P : FileHandler → Leader δ → Prop} {p : FdRecord} {rest : List FdRecord}
    {st' : Leader δ} (hfirst : fileClose E p.value session internalXid st = .ret () st') :
    SomeClose E session P (p :: rest) st ↔ P p.value st ∨ SomeClose E session P rest st' := by
  refine or_congr_right ⟨?_, fun hlater => ⟨st', hfirst, hlater⟩⟩
  rintro ⟨st₂, hsecond, hlater⟩
  cases hfirst.symm.trans hsecond
  exact hlater

/-- A record that is gone stays away. -/
theorem closeAll_gone (l : List FdRecord) (h : closeAll E session l st = .ret () st₁)
    (hi : st.Indexed) (hold : q.address < st.nextAddress) (hq : q ∉ st.fds session) :
    q ∉ st₁.fds session := by
  induction l generalizing st with
  | nil =>
    cases h
    exact hq
  | cons p rest ih =>
    obtain ⟨st', hfirst, hrest⟩ := Prog.forEach_cons_eq_ret.mp h
    have hends : CloseEnds E session internalXid p.value st (.ret () st') := by
      rw [← hfirst]
      exact fileClose_ends E session internalXid st p.value
    exact ih hrest (hends.indexed hi) (hends.allocated hold) ((hends.removes hi).gone hold hq)

/-- Of the records with the fields of `q` there are at least as many in front of it
    as the loop has yet to close. When it comes to `q`, the session still has it and
    a look-up finds it, just if there were no more than that and no close came in
    its way. -/
theorem closeAll_finds (l : List FdRecord) (h : closeAll E session l st = .ret () st₁)
    (hi : st.Indexed) {before after : List FdRecord}
    (hq : (st.fds session).filter (fun p => p.value = q.value) = before ++ q :: after)
    (hcount : (l.map FdRecord.value).count q.value ≤ before.length) :
    q ∈ st₁.fds session ∧ st₁.findFd session q.value = q ↔
      before.length = (l.map FdRecord.value).count q.value ∧
        ¬ SomeClose E session (Spoils E session q) l st := by
  induction l generalizing st before with
  | nil =>
    have hdone : Outcome.ret () st = (.ret () st₁ : Outcome Stop (Leader δ) Unit) := h
    obtain ⟨_, rfl⟩ := Outcome.ret.inj hdone
    rw [and_iff_right (Leader.mem_of_filter hq), Leader.findFd_eq_iff hi hq]
    show _ ↔ before.length = 0 ∧ ¬ False
    rw [and_iff_left not_false, List.length_eq_zero_iff]
  | cons p rest ih =>
    obtain ⟨st', hfirst, hrest⟩ := Prog.forEach_cons_eq_ret.mp h
    have hends : CloseEnds E session internalXid p.value st (.ret () st') := by
      rw [← hfirst]
      exact fileClose_ends E session internalXid st p.value
    have hremoves := hends.removes hi
    rw [someClose_cons hfirst, not_or]
    rw [List.map_cons, List.count_cons] at hcount ⊢
    by_cases hdelete : ClosesDelete E session p.value st ∧ p.value.fileName = q.value.fileName
    · -- the node of `q` is deleted, and `q` with it
      have hspoils : Spoils E session q p.value st := ⟨hdelete.1.1, Or.inl hdelete⟩
      refine iff_of_false (fun hcon => ?_) fun hcon => hcon.2.1 hspoils
      have hgone : q ∉ st'.fds session := hremoves.gone_deleted hdelete.1 hdelete.2
      have hold : q.address < st'.nextAddress :=
        hends.allocated (hi.allocated session q (Leader.mem_of_filter hq))
      exact closeAll_gone rest hrest (hends.indexed hi) hold hgone hcon.1
    · have hkeep : ClosesDelete E session p.value st → p.value.fileName ≠ q.value.fileName :=
        fun hd hname => hdelete ⟨hd, hname⟩
      have hfront : p.value = q.value → before ≠ [] := by
        rintro hvalue rfl
        rw [hvalue, beq_self_eq_true, if_pos rfl, List.length_nil] at hcount
        omega
      have hleft := hremoves.filter hi hq hfront hkeep
      have hnext := ih hrest (hends.indexed hi) hleft
      by_cases hvalue : p.value = q.value
      · rw [hvalue, beq_self_eq_true, if_pos rfl] at hcount ⊢
        have hpositive := List.length_pos_iff.mpr (hfront hvalue)
        by_cases hmarked : p.value.fileName ∈ st.ephemeral (st.client session)
        · -- a record is left in front of `q` that the loop has no close for
          have hspoils : Spoils E session q p.value st :=
            ⟨hmarked, Or.inr ⟨fun hd => hkeep hd (congrArg _ hvalue), hvalue⟩⟩
          rw [if_neg fun hcon => hcon.2 hmarked] at hnext
          rw [hvalue] at hspoils
          refine (hnext (by omega)).trans
            (iff_of_false (fun hcon => ?_) fun hcon => hcon.2.1 hspoils)
          omega
        · have hspoils : ¬ Spoils E session q p.value st := fun hcon => hmarked hcon.1
          rw [if_pos ⟨hvalue, hmarked⟩, List.length_tail] at hnext
          rw [hvalue] at hspoils
          rw [and_iff_right hspoils]
          refine (hnext (by omega)).trans (and_congr_left fun _ => ?_)
          omega
      · have hspoils : ¬ Spoils E session q p.value st := by
          rintro ⟨_, hcon | hcon⟩
          · exact hdelete hcon
          · exact hvalue hcon.2
        rw [if_neg fun hcon => hvalue hcon.1] at hnext
        rw [if_neg (by simpa using hvalue), Nat.add_zero] at hcount ⊢
        rw [and_iff_right hspoils]
        exact hnext hcount

end Loop

/-- In every state the leader can reach, over any database: every record of the
    snapshot that a disconnect takes is still there when its loop comes to it, and is
    the one that its close takes, if and only if no earlier close of the loop comes in
    its way. -/
theorem snapshotOpen_iff (E : Service δ) (db : δ) (masterSequenceNumber : UInt64) (st : Leader δ)
    (hreach : (E.leader db masterSequenceNumber).Reach (fun _ _ => True) st)
    (session : SessionId) : SnapshotOpen E session st ↔ Unspoiled E session st := by
  have hi : st.Indexed := handleIndex_reachable E db masterSequenceNumber st hreach
  have hi₀ : (st.touchFds session).Indexed := hi.of_get fun s => UMap.get_touch _ _ _
  have hread : (st.touchFds session).fds session = st.fds session := UMap.get_touch _ _ _
  have hone : ∀ l q rest st₁, st.fds session = l ++ q :: rest →
      closeAll E session l (st.touchFds session) = .ret () st₁ →
      (q ∈ st₁.fds session ∧ st₁.findFd session q.value = q ↔
        ¬ SomeClose E session (Spoils E session q) l (st.touchFds session)) := by
    intro l q rest st₁ hsnapshot hrun
    have hfilter : ((st.touchFds session).fds session).filter (fun p => p.value = q.value) =
        l.filter (fun p => p.value = q.value) ++ q :: rest.filter fun p => p.value = q.value := by
      rw [hread, hsnapshot, List.filter_append, List.filter_cons_of_pos (by simp)]
    have hcount : (l.map FdRecord.value).count q.value =
        (l.filter fun p => p.value = q.value).length := by
      rw [List.count, List.countP_map, List.countP_eq_length_filter]
      refine congrArg List.length (List.filter_congr fun p _ => ?_)
      exact Bool.eq_iff_iff.mpr (by simp)
    have hends := closeAll_finds l hrun hi₀ hfilter (Nat.le_of_eq hcount)
    rwa [hcount, and_iff_right rfl] at hends
  unfold SnapshotOpen Unspoiled
  constructor
  · intro hall l q rest st₁ hsnapshot hrun
    exact (hone l q rest st₁ hsnapshot hrun).mp (hall l q rest st₁ hsnapshot hrun)
  · intro hall l q rest st₁ hsnapshot hrun
    exact (hone l q rest st₁ hsnapshot hrun).mpr (hall l q rest st₁ hsnapshot hrun)

theorem snapshotOpen_holdsTwice :
    ∃ st, ((Service.paxos .refusing (fun _ => 0) inlineNamed).leader .empty 0).exec
      (fun _ _ => True) holdsTwice (.fresh .empty 0) = some st ∧ ∀ session,
        SnapshotOpen (Service.paxos .refusing (fun _ => 0) inlineNamed) session st ↔
          Unspoiled (Service.paxos .refusing (fun _ => 0) inlineNamed) session st := by
  have hrun :
      (((Service.paxos .refusing (fun _ => 0) inlineNamed).leader .empty 0).exec (fun _ _ => True)
      holdsTwice (.fresh .empty 0)).isSome = true := by decide +kernel
  obtain ⟨st, hst⟩ := Option.isSome_iff_exists.mp hrun
  exact ⟨st, hst, snapshotOpen_iff _ _ _ st (Lts.Reach.exec (.init rfl) hst)⟩

/-- A session with an ephemeral file that it has open twice. -/
def opensTwice : List Input :=
  [.rpc 1 1 (.startSession ['1']),
    .rpc 1 2 (.fileOpen ['/', 'f'] (ModeFlag.createFile ||| ModeFlag.ephemeral)),
    .rpc 1 3 (.fileOpen ['/', 'f'] ModeFlag.write)]

/-- The close of the first handle on an ephemeral file frees the second, which is
    still in the snapshot. -/
theorem not_snapshotOpen :
    ¬ ∀ st, ((Service.paxos .refusing (fun _ => 0) inlineNamed).leader .empty 0).Reach
      (fun _ _ => True) st →
      ∀ session, ∀ l q rest st₁, st.fds session = l ++ q :: rest →
        closeAll (Service.paxos .refusing (fun _ => 0) inlineNamed) session l
          (st.touchFds session) = .ret () st₁ →
          q ∈ st₁.fds session := by
  intro hall
  let E := Service.paxos .refusing (fun _ => 0) inlineNamed
  have hrun : (((E.leader .empty 0).exec (fun _ _ => True) opensTwice
      (.fresh .empty 0)).bind fun st =>
        (closeAll E 1 ((st.fds 1).take 1) (st.touchFds 1)).returned.map fun st₁ =>
          ((st.fds 1).length, (st₁.fds 1).length)) = some (2, 0) := by decide +kernel
  obtain ⟨st, hst, hends⟩ := Option.bind_eq_some_iff.mp hrun
  obtain ⟨st₁, hst₁, heq⟩ := Option.map_eq_some_iff.mp hends
  obtain ⟨_, hclose⟩ := Outcome.returned_eq_some.mp hst₁
  obtain ⟨hlength, hnone⟩ := Prod.mk.inj heq
  obtain ⟨p, q, hpair⟩ := List.length_eq_two.mp hlength
  rw [hpair] at hclose
  have hmem := hall st (Lts.Reach.exec (.init rfl) hst) 1 [p] q [] st₁ hpair hclose
  rw [List.length_eq_zero_iff.mp hnone] at hmem
  cases hmem

end SimpleChubby
