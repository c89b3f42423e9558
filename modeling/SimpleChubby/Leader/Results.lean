import SimpleChubby.Leader.Replies

/-!
# Every reply is a result of its procedure

A reply names a session and a transaction id, and nothing else tells the client
what it is a reply to. Over every run and any database, each reply has in front
of it in the log a call of that session and transaction id whose procedure can
have this result, also when the reply is sent by the `release` of another
client. `acquire` and `release` say `true` or fail, which `libclient` asserts.
-/

namespace SimpleChubby

/-- The results a procedure can have. -/
def Request.Accepts : Request → Reply → Prop
  | .fileOpen _ _, .fd _ => True
  | .getContentsAndStat _, .contents _ _ => True
  | .fileDelete _, .bool _ => True
  | .tryAcquire _, .bool _ => True
  | .startSession _, .bool _ => True
  | .fileClose _, .bool val => val = true
  | .setContents _ _, .bool val => val = true
  | .acquire _, .bool val => val = true
  | .release _, .bool val => val = true
  | .fileReopen _ _, .bool val => val = true
  | .fileClose _, .error _ => False
  | .startSession _, .error _ => False
  | .fileReopen _ _, .error _ => False
  | _, .error _ => True
  | _, _ => False

/-- The segment of a call whose own reply is a result of its procedure. -/
def ServesTyped (session : SessionId) (xid : Xid) (request : Request) (l : List Action) : Prop :=
  AnswersBy request.Accepts session xid l ∨
    ∃ fd, request = .acquire fd ∧ l = [.enqueue fd.fileName session xid]

/-- What the handling of an input adds to the log. -/
inductive TypedSegment : Input → List Action → Prop
  | call {session : SessionId} {xid : Xid} {request : Request} {l : List Action} :
      ServesTyped session xid request l →
      TypedSegment (.rpc session xid request) (.call session xid request :: l)
  | disconnected {session : SessionId} {l : List Action} :
      Chatter l → TypedSegment (.disconnect session) (.disconnected session :: l)
  | initialized : TypedSegment .initializeLeader [.initialized]

/-! ## What the handlers add -/

section Handlers

variable {δ : Type} {E : Service δ} {session : SessionId} {xid : Xid} {fd : FileHandler}
  {st st' : Leader δ}

theorem Leader.Adds.answersByThen {B : Reply → Prop} {st₁ : Leader δ} {body : Reply}
    {l : List Action} (hbody : B body) (h : st₁.log = st.log) (hl : Chatter l) :
    Leader.Adds (AnswersBy B session xid) st
      ((st₁.logged (Leader.replyOf session xid body)).logged l) :=
  ⟨_, .reply hbody hl, by rw [Leader.logged_logged, Leader.logged_log, h]⟩

theorem Leader.Adds.typed {request : Request}
    (h : Leader.Adds (AnswersBy request.Accepts session xid)
      (st.logged [.call session xid request]) st') :
    Leader.Adds (TypedSegment (.rpc session xid request)) st st' := by
  obtain ⟨l, hl, hlog⟩ := h
  refine ⟨_, .call (Or.inl hl), ?_⟩
  rw [hlog, Leader.logged_log, List.append_assoc]
  rfl

theorem ReleaseEnds.typed (h : ReleaseEnds E session xid fd st (.ret () st')) :
    Leader.Adds (AnswersBy (Request.release fd).Accepts session xid) st st' := by
  cases h with
  | threw hc hdb => exact .answersBy trivial rfl
  | refused hc hdb => exact .answersBy trivial rfl
  | @released db st₁ hc hdb hoff =>
    obtain ⟨l, hl, hlog⟩ := hoff.adds
    have hrest := hl.append (chatter_lockEvents st₁ fd.fileName)
    refine ⟨_, .reply (show Request.Accepts _ (.bool true) from rfl) hrest, ?_⟩
    rw [Leader.logged_log, hlog]
    simp

theorem DeleteEnds.typed {r : Except Unit Unit} (h : DeleteEnds E session xid fd st (.ret r st')) :
    Leader.Adds (AnswersBy (Request.fileDelete fd).Accepts session xid) st st' := by
  cases h with
  | threw hc hdb => exact .answersBy trivial rfl
  | refused hc hdb => exact .answersBy trivial rfl
  | @deleted db hc hdb =>
    have hl : Chatter _ :=
      (chatter_contentEvents (st.deleted E session xid fd db) fd.fileName).append
        (chatter_parentEvents (st.deleted E session xid fd db) fd.fileName)
    refine ⟨_, .reply (show Request.Accepts _ (.bool true) from trivial) hl, ?_⟩
    simp

/-- `getContentsAndStat` has contents or an error. -/
theorem getContentsAndStat_typed
    (h : getContentsAndStat E fd session xid st = .ret () st') :
    Leader.Adds (AnswersBy (Request.getContentsAndStat fd).Accepts session xid) st st' := by
  have hspec : Prog.wp (getContentsAndStat E fd session xid)
      (fun _ st₁ => Leader.Adds (AnswersBy (Request.getContentsAndStat fd).Accepts session xid)
        st st₁) (fun _ _ => True) st := by
    unfold getContentsAndStat
    simp only [Prog.wp_bind, wp_findFd, Leader.findFd_value]
    refine wp_callDb (fun r db _ => ?_) (fun db _ => ?_) (fun _ _ => trivial)
    · cases r with
      | none => exact .answersBy trivial rfl
      | some content => exact .answersBy trivial rfl
    · exact .answersBy trivial rfl
  have hends := Prog.wp_of_ret hspec h
  exact hends

/-- Handling an input other than a read adds a segment in which the reply to the
    call is a result of its procedure. -/
theorem Handles.typed {input : Input} (h : Handles E st input (.ret () st'))
    (hread : ∀ s x fd, input ≠ .rpc s x (.getContentsAndStat fd)) :
    Leader.Adds (TypedSegment input) st st' := by
  cases h with
  | @fileOpen s x name mode _ ho =>
    apply Leader.Adds.typed
    cases ho with
    | badArg hc hbad => exact .answersBy trivial rfl
    | failed hc hname hdb => exact .answersBy trivial rfl
    | opened hc hname hdb =>
      exact .answersByThen trivial rfl (chatter_parentEvents _ _)
  | fileClose ho =>
    apply Leader.Adds.typed
    exact ho.answersBy.imp fun _ hl => hl.mono fun body hbody => by
      subst hbody
      rfl
  | fileDelete ho => exact .typed ho.typed
  | getContentsAndStat ho => exact absurd rfl (hread _ _ _)
  | setContents ho =>
    apply Leader.Adds.typed
    cases ho with
    | failed hdb => exact .answersBy trivial rfl
    | written hdb =>
      exact ⟨_, .reply (show Request.Accepts _ (.bool true) from rfl)
        (chatter_contentEvents _ _), rfl⟩
  | @acquire s x fd _ ho =>
    cases ho with
    | threw hc hdb => exact .typed (.answersBy trivial rfl)
    | @taken db hc hdb hq =>
      have hl := chatter_lockEvents ((st.logged [.call s x (.acquire fd)]).taken s x fd db)
        fd.fileName
      apply Leader.Adds.typed
      refine ⟨_, .reply (show Request.Accepts _ (.bool true) from rfl) hl, ?_⟩
      simp
    | busy hc hdb =>
      refine ⟨_, .call (Or.inr ⟨fd, rfl, rfl⟩), ?_⟩
      simp
  | @tryAcquire s x fd _ ho =>
    apply Leader.Adds.typed
    cases ho with
    | threw hc hdb => exact .answersBy trivial rfl
    | @taken db hc hdb hq =>
      have hl := chatter_lockEvents ((st.logged [.call s x (.tryAcquire fd)]).taken s x fd db)
        fd.fileName
      refine ⟨_, .reply (show Request.Accepts _ (.bool true) from trivial) hl, ?_⟩
      simp
    | busy hc hdb => exact .answersBy trivial rfl
  | release ho => exact .typed ho.typed
  | startSession ho =>
    apply Leader.Adds.typed
    cases ho with
    | refused hl => exact .answersBy trivial rfl
    | started hl => exact .answersBy trivial rfl
  | fileReopen => exact .typed (.answersBy (show Request.Accepts _ (.bool true) from rfl) rfl)
  | disconnect ho =>
    cases ho with
    | left hall =>
      obtain ⟨l, hl, hlog⟩ := hall.adds rfl
      refine ⟨_, .disconnected hl, ?_⟩
      rw [Leader.left_log, hlog, Leader.touchFds_log, Leader.logged_log, List.append_assoc]
      rfl
  | initializeLeader ho =>
    cases ho with
    | initialized hdb => exact ⟨_, .initialized, (Leader.recovered_queue _ _).2⟩

/-- A step of the leader adds a segment. -/
theorem step_typed {input : Input} (h : Leader.step E input st = some st') :
    Leader.Adds (TypedSegment input) st st' := by
  by_cases hread : ∃ s x fd, input = .rpc s x (.getContentsAndStat fd)
  · obtain ⟨s, x, fd, rfl⟩ := hread
    exact .typed (getContentsAndStat_typed (dispatch_of_step h))
  · exact (step_ends E h).typed fun s x fd hinput => hread ⟨s, x, fd, hinput⟩

end Handlers

/-! ## The calls behind the replies -/

/-- Every reply in `l` has a call that can have it, before it in `l` or in `known`. -/
def Answered : List Action → List Action → Prop
  | _, [] => True
  | known, a :: rest =>
    (∀ s x body, a = .reply s x body → ∃ request, .call s x request ∈ known ∧
      request.Accepts body) ∧ Answered (known ++ [a]) rest

section Answered

variable {known known' l l' : List Action} {session : SessionId} {xid : Xid}

theorem Answered.append (h : Answered known l) (h' : Answered (known ++ l) l') :
    Answered known (l ++ l') := by
  induction l generalizing known with
  | nil => simpa using h'
  | cons a rest ih =>
    refine ⟨h.1, ih h.2 ?_⟩
    rwa [List.append_assoc]

theorem Answered.mono (h : Answered known l) (hsub : known ⊆ known') : Answered known' l := by
  induction l generalizing known known' with
  | nil => trivial
  | cons a rest ih =>
    refine ⟨fun s x body ha => ?_, ih h.2 ?_⟩
    · obtain ⟨request, hmem, haccepts⟩ := h.1 s x body ha
      exact ⟨request, hsub hmem, haccepts⟩
    · intro b hb
      rcases List.mem_append.mp hb with hb | hb
      · exact List.mem_append_left _ (hsub hb)
      · exact List.mem_append_right _ hb

/-- An action that is not a reply. -/
theorem Answered.skip {a : Action} (ha : ∀ s x body, a ≠ .reply s x body)
    (h : Answered (known ++ [a]) l) : Answered known (a :: l) :=
  ⟨fun s x body hreply => absurd hreply (ha s x body), h⟩

/-- Actions without a reply need no call. -/
theorem Answered.silent (h : ∀ a ∈ l, ∀ s x body, a ≠ .reply s x body) : Answered known l := by
  induction l generalizing known with
  | nil => trivial
  | cons a rest ih =>
    exact .skip (h a List.mem_cons_self) (ih fun b hb => h b (List.mem_cons_of_mem _ hb))

/-- The reply of a call that is known. -/
theorem Answered.replyOf {body : Reply} {request : Request}
    (hcall : .call session xid request ∈ known)
    (haccepts : request.Accepts body) : Answered known (Leader.replyOf session xid body) := by
  unfold Leader.replyOf
  split_ifs
  · trivial
  · refine ⟨fun s x body' ha => ?_, trivial⟩
    cases ha
    exact ⟨request, hcall, haccepts⟩

/-- Chatter replies to the waiters it pops, who have called `acquire`. -/
theorem Answered.chatter (h : Chatter l)
    (hpop : ∀ f s x, .dequeue f s x ∈ l → ∃ fd, .call s x (.acquire fd) ∈ known) :
    Answered known l := by
  induction h generalizing known with
  | nil => trivial
  | @event s e f l _ ih =>
    refine .skip (by simp) (ih fun f s x hmem => ?_)
    obtain ⟨fd, hfd⟩ := hpop f s x (List.mem_cons_of_mem _ hmem)
    exact ⟨fd, List.mem_append_left _ hfd⟩
  | @handOff f s x l _ ih =>
    obtain ⟨fd, hfd⟩ := hpop f s x List.mem_cons_self
    refine Answered.skip (by simp) ?_
    apply Answered.append
    · exact .replyOf (List.mem_append_left _ hfd) rfl
    · refine ih fun f' s' x' hmem => ?_
      obtain ⟨fd', hfd'⟩ := hpop f' s' x' (by simp [hmem])
      exact ⟨fd', by simp [hfd']⟩

end Answered

/-- Every entry of a lock queue was pushed by an `acquire`. -/
def QueuedByAcquire (log : List Action) : Prop :=
  ∀ f s x, .enqueue f s x ∈ log → ∃ fd, .call s x (.acquire fd) ∈ log

/-- Chatter pushes nothing. -/
theorem Chatter.not_enqueue {l : List Action} (h : Chatter l) (f : Str) (s : SessionId) (x : Xid) :
    .enqueue f s x ∉ l := by
  induction h with
  | nil => exact List.not_mem_nil
  | event _ ih => simpa using ih
  | @handOff f' s' x' l _ ih =>
    intro hmem
    rcases List.mem_cons.mp hmem with hmem | hmem
    · cases hmem
    · rcases List.mem_append.mp hmem with hmem | hmem
      · have hreply := (mem_replyOf hmem).1
        cases hreply
      · exact ih hmem

/-- A segment in which something is pushed is an `acquire` and its entry. -/
theorem TypedSegment.enqueue {input : Input} {l : List Action} (h : TypedSegment input l) {f : Str}
    {s : SessionId} {x : Xid} (hmem : .enqueue f s x ∈ l) :
    ∃ fd, l = [.call s x (.acquire fd), .enqueue f s x] := by
  cases h with
  | @call s' x' request l hl =>
    have hrest : .enqueue f s x ∈ l := by simpa using hmem
    rcases hl with ⟨before, body, after, _, hbefore, hafter, rfl⟩ | ⟨fd, rfl, rfl⟩
    · rcases List.mem_append.mp hrest with hrest | hrest
      · rcases List.mem_append.mp hrest with hrest | hrest
        · exact absurd hrest (hbefore.not_enqueue f s x)
        · have hreply := (mem_replyOf hrest).1
          cases hreply
      · exact absurd hrest (hafter.not_enqueue f s x)
    · rw [List.mem_singleton] at hrest
      cases hrest
      exact ⟨fd, rfl⟩
  | disconnected hl =>
    rcases List.mem_cons.mp hmem with hmem | hmem
    · cases hmem
    · exact absurd hmem (hl.not_enqueue f s x)
  | initialized => simp at hmem

/-- A segment answers the call it starts with, and waiters that are known. -/
theorem TypedSegment.answered {input : Input} {known l : List Action} (h : TypedSegment input l)
    (hpop : ∀ f s x, .dequeue f s x ∈ l → ∃ fd, .call s x (.acquire fd) ∈ known) :
    Answered known l := by
  cases h with
  | @call s x request l hl =>
    refine Answered.skip (by simp) ?_
    have hpop' : ∀ f s' x', .dequeue f s' x' ∈ l →
        ∃ fd, .call s' x' (.acquire fd) ∈ known ++ [.call s x request] := by
      intro f s' x' hmem
      obtain ⟨fd, hfd⟩ := hpop f s' x' (List.mem_cons_of_mem _ hmem)
      exact ⟨fd, List.mem_append_left _ hfd⟩
    rcases hl with ⟨before, body, after, hbody, hbefore, hafter, rfl⟩ | ⟨fd, rfl, rfl⟩
    · apply Answered.append
      · apply Answered.append
        · exact .chatter hbefore fun f s' x' hmem => hpop' f s' x' (by simp [hmem])
        · exact .replyOf (by simp) hbody
      · refine .chatter hafter fun f s' x' hmem => ?_
        obtain ⟨fd, hfd⟩ := hpop' f s' x' (by simp [hmem])
        exact ⟨fd, List.mem_append_left _ hfd⟩
    · exact .silent (by simp)
  | disconnected hl =>
    refine .skip (by simp) (.chatter hl fun f s x hmem => ?_)
    obtain ⟨fd, hfd⟩ := hpop f s x (List.mem_cons_of_mem _ hmem)
    exact ⟨fd, List.mem_append_left _ hfd⟩
  | initialized => exact .silent (by simp)

/-! ## Every run -/

variable {δ : Type} (E : Service δ)

/-- What the runs keep: the replies are answered, the entries of the queues come
    from `acquire`, and the queues obey their law. -/
structure Leader.Typed (st : Leader δ) : Prop where
  answered : Answered [] st.log
  queued : QueuedByAcquire st.log
  fifo : st.Fifo

variable {E}

theorem Leader.Typed.step {st st' : Leader δ} {input : Input} (h : st.Typed)
    (hstep : Leader.step E input st = some st') : st'.Typed := by
  obtain ⟨l, hl, hlog⟩ := step_typed hstep
  have hfifo := (step_ends E hstep).fifo h.fifo
  have hqueued : QueuedByAcquire st'.log := by
    intro f s x hmem
    rw [hlog] at hmem ⊢
    rcases List.mem_append.mp hmem with hmem | hmem
    · obtain ⟨fd, hfd⟩ := h.queued f s x hmem
      exact ⟨fd, List.mem_append_left _ hfd⟩
    · obtain ⟨fd, rfl⟩ := hl.enqueue hmem
      exact ⟨fd, by simp⟩
  refine ⟨?_, hqueued, hfifo⟩
  rw [hlog]
  apply h.answered.append
  rw [List.nil_append]
  refine hl.answered fun f s x hmem => ?_
  -- what is popped has been pushed, and not in this segment, which would be a push alone
  have hcount := hfifo.total f s x
  have hpopped : 0 < st'.log.count (.dequeue f s x) := by
    rw [hlog, List.count_pos_iff]
    exact List.mem_append_right _ hmem
  have hpushed : .enqueue f s x ∈ st'.log := List.count_pos_iff.mp (by omega)
  rw [hlog] at hpushed
  rcases List.mem_append.mp hpushed with hpushed | hpushed
  · exact h.queued f s x hpushed
  · obtain ⟨fd, rfl⟩ := hl.enqueue hpushed
    simp at hmem

/-- What `Answered` says of a reply in the middle of a log. -/
theorem Answered.at_reply {known before after : List Action} {session : SessionId} {xid : Xid}
    {body : Reply} (h : Answered known (before ++ .reply session xid body :: after)) :
    ∃ request, .call session xid request ∈ known ++ before ∧ request.Accepts body := by
  induction before generalizing known with
  | nil =>
    rw [List.append_nil]
    exact h.1 session xid body rfl
  | cons a before ih =>
    have hrest := ih h.2
    rwa [List.append_assoc] at hrest

/-- Every run keeps it. -/
theorem Leader.Typed.of_reach {db : δ} {masterSequenceNumber : UInt64} {st : Leader δ}
    (h : (E.leader db masterSequenceNumber).Reach (fun _ _ => True) st) : st.Typed := by
  refine h.invariant (I := Leader.Typed) ?_ fun st st' input _ hi _ hstep => hi.step hstep
  rintro st rfl
  exact ⟨trivial, fun f s x hmem => (List.not_mem_nil hmem).elim, QueueHistory.empty⟩

/-- In every run over any database, each reply has been called for, by a
    procedure of which it is a result. -/
theorem typedReplies_reachable (E : Service δ) (db : δ) (masterSequenceNumber : UInt64)
    (st : Leader δ) (h : (E.leader db masterSequenceNumber).Reach (fun _ _ => True) st)
    (before after : List Action) (session : SessionId) (xid : Xid) (body : Reply)
    (hlog : st.log = before ++ .reply session xid body :: after) :
    ∃ request, .call session xid request ∈ before ∧ request.Accepts body := by
  have hanswered := (Leader.Typed.of_reach h).answered
  rw [hlog] at hanswered
  exact hanswered.at_reply

/-- In `contention` the waiting session gets the lock in the end. -/
theorem contention_last :
    ∃ st, ((Service.paxos .refusing (fun _ => 0) inlineNamed).leader .empty 0).exec
      (fun _ _ => True) contention
      (.fresh .empty 0) = some st ∧ st.log = st.log.dropLast ++ [.reply 2 2 (.bool true)] := by
  have hlast :
      (((Service.paxos .refusing (fun _ => 0) inlineNamed).leader .empty 0).exec (fun _ _ => True)
      contention (.fresh .empty 0)).map (·.log.getLast?) =
        some (some (.reply 2 2 (.bool true))) := by
    decide
  obtain ⟨st, hst, hreply⟩ := Option.map_eq_some_iff.mp hlast
  exact ⟨st, hst, (List.dropLast_append_getLast? _ hreply).symm⟩

theorem typedReplies_contention :
    ∃ st, ((Service.paxos .refusing (fun _ => 0) inlineNamed).leader .empty 0).exec
      (fun _ _ => True) contention
      (.fresh .empty 0) = some st ∧
      ∃ request, .call 2 2 request ∈ st.log.dropLast ∧ request.Accepts (.bool true) := by
  obtain ⟨st, hst, hlog⟩ := contention_last
  have hreach := Lts.Reach.exec (.init rfl) hst
  exact ⟨st, hst, typedReplies_reachable _ _ _ st hreach st.log.dropLast [] 2 2 (.bool true) hlog⟩

end SimpleChubby
