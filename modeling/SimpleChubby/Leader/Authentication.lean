import SimpleChubby.Leader.Locks

/-!
# Handles that nobody signed

`fileOpen` signs a handle with a hash of its file name, instance number and
write flag. `findFd` is where a handle would be checked: it compares the handle
with the records of the session, and makes a new record of a handle it does not
find. So no request is refused for its handle, and the branches that answer
`BAD_ARG` for one are never taken.
-/

namespace SimpleChubby

section Statement

variable {δ : Type} (E : Service δ)

/-- The handle a request has looked up by `findFd`. -/
def Request.lookedUp : Request → Option FileHandler
  | .fileReopen _ _ => none
  | request => request.handle

/-- The number `fileOpen` signs a handle with. -/
def magicNumberOf (fileName : Str) (instanceNumber : UInt64) (writeIsAllowed : Bool) : UInt64 :=
  E.strHash (fileName ++ Nat.toDigits 10 instanceNumber.toNat ++
    (if writeIsAllowed then ['1'] else ['0']))

/-- The handle is open for the session, or `fileOpen` would have signed it and
    the node it names exists. `rows` reads the table of nodes off the database. -/
def Authentic (rows : δ → List FsRow) (st : Leader δ) (session : SessionId) (fd : FileHandler) :
    Prop :=
  (∃ p ∈ st.fds session, p.value = fd) ∨
    (fd.magicNumber = magicNumberOf E fd.fileName fd.instanceNumber fd.writeIsAllowed ∧
      ∃ row ∈ rows st.db, row.name = fd.fileName ∧
        UInt64.ofInt row.instanceNumber = fd.instanceNumber)

/-- The database and the maps read as before. An empty entry that a subscript
    has left behind does not count as a change. -/
structure Leader.SameMaps (st st' : Leader δ) : Prop where
  db : st'.db = st.db
  client : ∀ s, st'.client s = st.client s
  file2fd : ∀ f, st'.file2fdMap.get f = st.file2fdMap.get f
  fds : ∀ s, st'.fds s = st.fds s
  queue : ∀ f, st'.queue f = st.queue f
  held : ∀ c, st'.held c = st.held c
  ephemeral : ∀ c, st'.ephemeral c = st.ephemeral c
  lockChange : ∀ f, st'.file2lockChangeMap.get f = st.file2lockChangeMap.get f
  contentChange : ∀ f, st'.file2contentChangeMap.get f = st.file2contentChangeMap.get f

/-- The request is answered `BAD_ARG`, and nothing changes. -/
def Rejected (st : Leader δ) (session : SessionId) (xid : Xid) (request : Request) : Prop :=
  ∃ st' l, handle E (.rpc session xid request) st = .ret () st' ∧ st'.log = st.log ++ l ∧
    .reply session xid (.error .badArg) ∈ l ∧ st.SameMaps st'

end Statement

/-! ## Who says `BAD_ARG` -/

/-- A segment of the log in which nobody is told `BAD_ARG`. -/
def NoBadArg (l : List Action) : Prop := ∀ s x, .reply s x (.error .badArg) ∉ l

section Segments

variable {session : SessionId} {xid : Xid} {l l' : List Action}

theorem NoBadArg.append (h : NoBadArg l) (h' : NoBadArg l') : NoBadArg (l ++ l') := by
  intro s x hmem
  rcases List.mem_append.mp hmem with hmem | hmem
  · exact h s x hmem
  · exact h' s x hmem

theorem noBadArg_replyOf {body : Reply} (hbody : body ≠ .error .badArg) :
    NoBadArg (Leader.replyOf session xid body) := by
  intro s x hmem
  obtain ⟨heq, _⟩ := mem_replyOf hmem
  cases heq
  exact hbody rfl

theorem Chatter.noBadArg (h : Chatter l) : NoBadArg l := by
  induction h with
  | nil => exact fun _ _ hmem => by cases hmem
  | event _ ih =>
    intro s x hmem
    rcases List.mem_cons.mp hmem with heq | hmem
    · cases heq
    · exact ih s x hmem
  | handOff _ ih =>
    intro s x hmem
    rcases List.mem_cons.mp hmem with heq | hmem
    · cases heq
    · exact (noBadArg_replyOf (Reply.plain_bool true).accepts).append ih s x hmem

theorem AnswersBy.noBadArg (h : AnswersBy Reply.Plain session xid l) : NoBadArg l := by
  obtain ⟨before, body, after, hbody, hbefore, hafter, rfl⟩ := h
  refine (hbefore.noBadArg.append ?_).append hafter.noBadArg
  exact noBadArg_replyOf hbody.accepts

end Segments

section Handlers

variable {δ : Type} {E : Service δ} {session : SessionId} {xid : Xid} {fd : FileHandler}
  {st st' : Leader δ}

/-- A reply, and chatter after it. -/
theorem Leader.Adds.noBadArg {st₁ : Leader δ} {body : Reply} {l : List Action}
    (hlog : st₁.log = st.log) (hbody : body ≠ .error .badArg) (hl : NoBadArg l) :
    Leader.Adds NoBadArg st (st₁.logged (Leader.replyOf session xid body ++ l)) :=
  ⟨_, (noBadArg_replyOf hbody).append hl, by rw [Leader.logged_log, hlog]⟩

theorem Leader.Adds.replied {st₁ : Leader δ} {body : Reply} (hlog : st₁.log = st.log)
    (hbody : body ≠ .error .badArg) :
    Leader.Adds NoBadArg st (st₁.logged (Leader.replyOf session xid body)) := by
  refine ⟨_, (noBadArg_replyOf hbody : NoBadArg (Leader.replyOf session xid body)), ?_⟩
  rw [Leader.logged_log, hlog]

/-- A plain answer does not say `BAD_ARG`. -/
theorem Leader.Adds.plainly (h : Leader.Adds (AnswersBy Reply.Plain session xid) st st') :
    Leader.Adds NoBadArg st st' :=
  h.imp fun _ hl => hl.noBadArg

theorem getContentsAndStat_noBadArg :
    Prog.wp (getContentsAndStat E fd session xid) (fun _ st' => Leader.Adds NoBadArg st st')
      (fun _ _ => True) st := by
  unfold getContentsAndStat
  simp only [Prog.wp_bind, wp_findFd]
  refine wp_callDb (fun r db _ => ?_) (fun db _ => ?_) (fun _ _ => trivial)
  · cases r with
    | none => exact .replied rfl (by simp)
    | some content => exact .replied rfl (by simp)
  · exact .replied rfl (by simp)

theorem setContents_noBadArg (content : Str) :
    Prog.wp (setContents E fd content session xid)
      (fun _ st' => Leader.Adds NoBadArg st st') (fun _ _ => True) st := by
  unfold setContents
  simp only [Prog.wp_bind, wp_findFd]
  refine wp_callDb (fun done db _ => ?_) (fun db _ => ?_) (fun _ _ => trivial)
  · cases done with
    | false => exact .replied rfl (by simp)
    | true =>
      have hrest := (chatter_contentEvents st fd.fileName).noBadArg
      simp only [Prog.wp_bind, wp_reply, sendContentChangeEvent, Prog.wp_modify,
        Leader.findFd_value, Leader.logged_logged]
      exact .noBadArg rfl (by simp) hrest
  · exact .replied rfl (by simp)

/-- No request is told `BAD_ARG` for its handle. -/
theorem dispatch_noBadArg {request : Request} (hreq : request.lookedUp = some fd)
    (h : dispatch E session xid request st = .ret () st') : Leader.Adds NoBadArg st st' := by
  cases request with
  | fileOpen name mode => cases hreq
  | startSession clientId => cases hreq
  | fileReopen fd' mode => cases hreq
  | fileClose fd' =>
    have hends := fileClose_ends E session xid st fd'
    rw [show fileClose E fd' session xid st = _ from h] at hends
    have hplain : Leader.Adds (AnswersBy Reply.Plain session xid) st st' := hends.answersBy.imp
      fun _ hl => hl.mono fun _ htrue => htrue ▸ Reply.plain_bool true
    exact hplain.plainly
  | fileDelete fd' =>
    have hends := fileDelete_ends E session xid st fd'
    have hrun : Prog.wp (dispatch E session xid (.fileDelete fd'))
        (fun _ st' => Leader.Adds NoBadArg st st') (fun _ _ => True) st := by
      simp only [dispatch, Prog.wp_bind]
      refine Prog.wp_of_outcome hends (fun r st₁ hr => ?_) (fun _ _ _ => trivial)
      cases r with
      | ok u => exact hr.answersBy.plainly
      | error u => cases hr
    have hadds := Prog.wp_of_ret hrun h
    exact hadds
  | getContentsAndStat fd' =>
    have hadds := Prog.wp_of_ret getContentsAndStat_noBadArg h
    exact hadds
  | setContents fd' content =>
    have hadds := Prog.wp_of_ret (setContents_noBadArg content) h
    exact hadds
  | acquire fd' =>
    have hends := acquire_ends E session xid st fd'
    rw [show acquire E fd' session xid st = _ from h] at hends
    refine hends.adds (fun _ hl => hl.noBadArg) fun st₁ =>
      ⟨[.enqueue fd'.fileName session xid], ?_, rfl⟩
    intro s x hmem
    cases List.mem_singleton.mp hmem
  | tryAcquire fd' =>
    have hends := tryAcquire_ends E session xid st fd'
    rw [show tryAcquire E fd' session xid st = _ from h] at hends
    have hplain : Leader.Adds (AnswersBy Reply.Plain session xid) st st' :=
      hends.adds (fun _ hl => hl) fun st₁ => .answersBy (Reply.plain_bool false) rfl
    exact hplain.plainly
  | release fd' =>
    have hends := release_ends E session xid st fd'
    rw [show release E fd' session xid st = _ from h] at hends
    exact hends.answersBy.plainly

/-- No request is rejected for its handle. -/
theorem not_rejected (E : Service δ) (st : Leader δ) (session : SessionId) (xid : Xid)
    (request : Request) (hreq : request.lookedUp = some fd) :
    ¬ Rejected E st session xid request := by
  rintro ⟨st', l, hrun, hlog, hmem, _⟩
  obtain ⟨l', hl', hlog'⟩ := dispatch_noBadArg hreq
    (show dispatch E session xid request (st.logged [.call session xid request]) = _ from hrun)
  rw [hlog, Leader.logged_log, List.append_assoc, List.append_cancel_left_eq] at hlog'
  rw [hlog'] at hmem
  rcases List.mem_append.mp hmem with hmem | hmem
  · cases List.mem_singleton.mp hmem
  · exact hl' session xid hmem

end Handlers

/-! ## The handles the leader accepts -/

/-- That a handle which is not authentic is rejected holds exactly of the requests
    whose handle is authentic: no other handle is rejected either. -/
theorem authenticates_iff {δ : Type} (E : Service δ) (rows : δ → List FsRow) (st : Leader δ)
    (session : SessionId) (xid : Xid) (request : Request) (fd : FileHandler)
    (hreq : request.lookedUp = some fd) :
    (¬ Authentic E rows st session fd → Rejected E st session xid request) ↔
      Authentic E rows st session fd := by
  constructor
  · intro h
    by_contra hcon
    exact not_rejected E st session xid request hreq (h hcon)
  · intro h hcon
    exact absurd h hcon

/-- Two sessions, and a file that the first one creates and keeps open. -/
def opensFile : List Input :=
  [.rpc 1 1 (.startSession ['1']), .rpc 2 1 (.startSession ['2']),
    .rpc 1 2 (.fileOpen ['/', 'f'] ModeFlag.createFile)]

theorem authenticates_opened :
    ∃ st, ((Service.paxos .refusing (fun _ => 0) inlineNamed).leader .empty 0).exec
      (fun _ _ => True) opensFile
      (.fresh .empty 0) = some st ∧
        (¬ Authentic (Service.paxos .refusing (fun _ => 0) inlineNamed) Store.fs st 1
            ⟨0, 0, ['/', 'f'], 1, false⟩ →
          Rejected (Service.paxos .refusing (fun _ => 0) inlineNamed) st 1 3
            (.getContentsAndStat ⟨0, 0, ['/', 'f'], 1, false⟩)) := by
  have hrun : ∃ st, ((Service.paxos .refusing (fun _ => 0) inlineNamed).leader .empty 0).exec
      (fun _ _ => True) opensFile (.fresh .empty 0) = some st ∧
        st.fds 1 = [⟨0, ⟨0, 0, ['/', 'f'], 1, false⟩⟩] := ⟨_, rfl, rfl⟩
  obtain ⟨st, hst, hfds⟩ := hrun
  refine ⟨st, hst, (authenticates_iff _ _ st 1 3 _ ⟨0, 0, ['/', 'f'], 1, false⟩ rfl).mpr ?_⟩
  refine Or.inl ⟨⟨0, ⟨0, 0, ['/', 'f'], 1, false⟩⟩, ?_, rfl⟩
  rw [hfds]
  exact List.mem_singleton_self _

/-- The second session presents a handle of the file, for writing, with a number
    that nobody signed. -/
theorem not_authenticates :
    ¬ ∀ st s x request fd,
      ((Service.paxos .refusing (fun _ => 0) inlineNamed).leader .empty 0).Reach
        (fun _ _ => True) st →
        request.lookedUp = some fd →
          ¬ Authentic (Service.paxos .refusing (fun _ => 0) inlineNamed) Store.fs st s fd →
            Rejected (Service.paxos .refusing (fun _ => 0) inlineNamed) st s x request := by
  intro hall
  have hrun : ∃ st, ((Service.paxos .refusing (fun _ => 0) inlineNamed).leader .empty 0).exec
      (fun _ _ => True) opensFile (.fresh .empty 0) = some st ∧ st.fds 2 = [] := ⟨_, rfl, rfl⟩
  obtain ⟨st, hst, hfds⟩ := hrun
  have hreject := hall st 2 2 (.setContents ⟨7, 0, ['/', 'f'], 1, true⟩ ['x'])
    ⟨7, 0, ['/', 'f'], 1, true⟩ (Lts.Reach.exec (.init rfl) hst) rfl ?_
  · exact not_rejected (Service.paxos .refusing (fun _ => 0) inlineNamed) st 2 2
      (.setContents ⟨7, 0, ['/', 'f'], 1, true⟩ ['x']) rfl hreject
  · rintro (⟨p, hp, _⟩ | ⟨hmagic, _⟩)
    · rw [hfds] at hp
      cases hp
    · exact absurd hmagic (by decide)

end SimpleChubby
