import Mathlib.Data.List.Perm.Subperm
import SimpleChubby.Leader.Queue

/-!
# Who is answered, and how often

What a handler adds to the log is its own reply among chatter: events, and the
replies to waiters it hands a lock to. `acquire` may add its entry to a lock
queue instead. The log of a whole run is made of such segments, and with
distinct transaction ids the replies to a call can be counted.
-/

namespace SimpleChubby

/-- What a handler may add to the log besides its own reply: events, and
    waiters popped and answered. -/
inductive Chatter : List Action → Prop
  | nil : Chatter []
  | event {s : SessionId} {e : ChubbyEvent} {f : Str} {l : List Action} :
      Chatter l → Chatter (.event s e f :: l)
  | handOff {f : Str} {s : SessionId} {x : Xid} {l : List Action} :
      Chatter l → Chatter (.dequeue f s x :: (Leader.replyOf s x (.bool true) ++ l))

/-- A segment with exactly one reply of the call's own. -/
def Answers (session : SessionId) (xid : Xid) (l : List Action) : Prop :=
  ∃ before body after, Chatter before ∧ Chatter after ∧
    l = before ++ Leader.replyOf session xid body ++ after

/-- A segment with exactly one reply of the call's own, the body of which meets `B`. -/
def AnswersBy (B : Reply → Prop) (session : SessionId) (xid : Xid) (l : List Action) : Prop :=
  ∃ before body after, B body ∧ Chatter before ∧ Chatter after ∧
    l = before ++ Leader.replyOf session xid body ++ after

/-- A body without a handle, which does not refuse one either. -/
structure Reply.Plain (body : Reply) : Prop where
  handleless : ∀ fd, body ≠ .fd fd
  accepts : body ≠ .error .badArg

/-- The segment of a call: its reply, or for `acquire` a place in a lock queue. -/
def Serves (session : SessionId) (xid : Xid) (request : Request) (l : List Action) : Prop :=
  Answers session xid l ∨
    ∃ fd, request = .acquire fd ∧ l = [.enqueue fd.fileName session xid]

/-- What the handling of an input adds to the log. -/
inductive Segment : Input → List Action → Prop
  | call {session : SessionId} {xid : Xid} {request : Request} {l : List Action} :
      Serves session xid request l →
      Segment (.rpc session xid request) (.call session xid request :: l)
  | disconnected {session : SessionId} {l : List Action} :
      Chatter l → Segment (.disconnect session) (.disconnected session :: l)
  | initialized : Segment .initializeLeader [.initialized]

/-- The logs that are made of segments. -/
inductive Disciplined : List Action → Prop
  | nil : Disciplined []
  | append {log l : List Action} {input : Input} :
      Disciplined log → Segment input l → Disciplined (log ++ l)

/-! ## Segments -/

section Segments

variable {session : SessionId} {xid : Xid} {l l' : List Action}

theorem Chatter.append (h : Chatter l) (h' : Chatter l') : Chatter (l ++ l') := by
  induction h with
  | nil => exact h'
  | event _ ih => exact .event ih
  | handOff _ ih =>
    rw [List.cons_append, List.append_assoc]
    exact .handOff ih

theorem Chatter.events {e : ChubbyEvent} {fileName : Str} (sessions : List SessionId) :
    Chatter (sessions.map (.event · e fileName)) := by
  induction sessions with
  | nil => exact .nil
  | cons s rest ih => exact .event ih

variable {δ : Type} (st : Leader δ) (fileName : Str)

theorem chatter_contentEvents : Chatter (st.contentEvents fileName) := Chatter.events _

theorem chatter_lockEvents : Chatter (st.lockEvents fileName) := Chatter.events _

theorem chatter_parentEvents : Chatter (st.parentEvents fileName) := by
  unfold Leader.parentEvents
  split_ifs
  · exact .nil
  · exact chatter_contentEvents st _

theorem Answers.reply (body : Reply) (h : Chatter l) :
    Answers session xid (Leader.replyOf session xid body ++ l) :=
  ⟨[], body, l, .nil, h, rfl⟩

variable {B B' : Reply → Prop}

theorem AnswersBy.reply {body : Reply} (hbody : B body) (h : Chatter l) :
    AnswersBy B session xid (Leader.replyOf session xid body ++ l) :=
  ⟨[], body, l, hbody, .nil, h, rfl⟩

theorem AnswersBy.mono (h : AnswersBy B session xid l) (hB : ∀ body, B body → B' body) :
    AnswersBy B' session xid l := by
  obtain ⟨before, body, after, hbody, hrest⟩ := h
  exact ⟨before, body, after, hB body hbody, hrest⟩

theorem AnswersBy.answers (h : AnswersBy B session xid l) : Answers session xid l := by
  obtain ⟨before, body, after, _, hrest⟩ := h
  exact ⟨before, body, after, hrest⟩

theorem Reply.plain_bool (b : Bool) : (Reply.bool b).Plain := ⟨nofun, nofun⟩

theorem Reply.plain_paxosError : (Reply.error .paxosError).Plain := ⟨nofun, nofun⟩

theorem Reply.plain_fsFail : (Reply.error .fsFail).Plain := ⟨nofun, nofun⟩

/-- An internal call has no reply of its own. -/
theorem Answers.internal (h : Answers session internalXid l) : Chatter l := by
  obtain ⟨before, body, after, hbefore, hafter, rfl⟩ := h
  have hnone : Leader.replyOf session internalXid body = [] := if_pos rfl
  rw [hnone, List.append_nil]
  exact hbefore.append hafter

end Segments

/-! ## What the handlers add to the log -/

section Handlers

variable {δ : Type} {E : Service δ} {session : SessionId} {xid : Xid} {fd : FileHandler}
  {st st' : Leader δ}

/-- `st'` has the log of `st` and a segment that meets `P`. -/
def Leader.Adds (P : List Action → Prop) (st st' : Leader δ) : Prop :=
  ∃ l, P l ∧ st'.log = st.log ++ l

theorem Leader.Adds.imp {P Q : List Action → Prop} (h : Leader.Adds P st st')
    (hPQ : ∀ l, P l → Q l) : Leader.Adds Q st st' := by
  obtain ⟨l, hl, hlog⟩ := h
  exact ⟨l, hPQ l hl, hlog⟩

/-- The segments of two steps, one after the other. -/
theorem Leader.Adds.append {P P' Q : List Action → Prop} {st₁ : Leader δ}
    (h : Leader.Adds P st st₁) (h' : Leader.Adds P' st₁ st')
    (happend : ∀ l l', P l → P' l' → Q (l ++ l')) : Leader.Adds Q st st' := by
  obtain ⟨l, hl, hlog⟩ := h
  obtain ⟨l', hl', hlog'⟩ := h'
  exact ⟨l ++ l', happend l l' hl hl', by rw [hlog', hlog, List.append_assoc]⟩

theorem Leader.Adds.reply {st₁ : Leader δ} {body : Reply} (h : st₁.log = st.log) :
    Leader.Adds (Answers session xid) st (st₁.logged (Leader.replyOf session xid body)) :=
  ⟨_, .reply body .nil, by rw [Leader.logged_log, h, List.append_nil]⟩

theorem Leader.Adds.replyThen {st₁ : Leader δ} {body : Reply} {l : List Action}
    (h : st₁.log = st.log) (hl : Chatter l) :
    Leader.Adds (Answers session xid) st
      ((st₁.logged (Leader.replyOf session xid body)).logged l) :=
  ⟨_, .reply body hl, by rw [Leader.logged_logged, Leader.logged_log, h]⟩

theorem Leader.Adds.answersBy {B : Reply → Prop} {st₁ : Leader δ} {body : Reply} (hbody : B body)
    (h : st₁.log = st.log) :
    Leader.Adds (AnswersBy B session xid) st (st₁.logged (Leader.replyOf session xid body)) :=
  ⟨_, .reply hbody .nil, by rw [Leader.logged_log, h, List.append_nil]⟩

/-- A call whose handler adds the segment of a call. -/
theorem Leader.Adds.call {request : Request}
    (h : Leader.Adds (Serves session xid request) (st.logged [.call session xid request]) st') :
    Leader.Adds (Segment (.rpc session xid request)) st st' := by
  obtain ⟨l, hl, hlog⟩ := h
  refine ⟨_, .call hl, ?_⟩
  rw [hlog, Leader.logged_log, List.append_assoc]
  rfl

/-- A call whose handler answers. -/
theorem Leader.Adds.answered {request : Request}
    (h : Leader.Adds (Answers session xid) (st.logged [.call session xid request]) st') :
    Leader.Adds (Segment (.rpc session xid request)) st st' := by
  obtain ⟨l, hl, hlog⟩ := h
  exact .call ⟨l, Or.inl hl, hlog⟩

theorem HandOffEnds.adds {fileName : Str} (h : HandOffEnds fileName st (.ret () st')) :
    Leader.Adds Chatter st st' := by
  cases h with
  | noQueue hq => exact ⟨[], .nil, (List.append_nil _).symm⟩
  | @lastWaiter session xid hq hc =>
    have hl : Chatter _ := .handOff (f := fileName) (s := session) (x := xid) .nil
    refine ⟨_, hl, ?_⟩
    simp
  | @moreWaiters session xid rest hq hrest hc =>
    have hl : Chatter _ := .handOff (f := fileName) (s := session) (x := xid) .nil
    refine ⟨_, hl, ?_⟩
    simp

theorem ReleaseEnds.answersBy (h : ReleaseEnds E session xid fd st (.ret () st')) :
    Leader.Adds (AnswersBy Reply.Plain session xid) st st' := by
  cases h with
  | threw hc hdb => exact .answersBy Reply.plain_paxosError rfl
  | refused hc hdb => exact .answersBy Reply.plain_fsFail rfl
  | @released db st₁ hc hdb hoff =>
    obtain ⟨l, hl, hlog⟩ := hoff.adds
    have hrest := hl.append (chatter_lockEvents st₁ fd.fileName)
    refine ⟨_, .reply (Reply.plain_bool true) hrest, ?_⟩
    rw [Leader.logged_log, hlog]
    simp

theorem ReleaseEnds.adds (h : ReleaseEnds E session xid fd st (.ret () st')) :
    Leader.Adds (Answers session xid) st st' :=
  h.answersBy.imp fun _ hl => hl.answers

theorem ReclaimEnds.adds {clientId : Str}
    (h : ReclaimEnds E session fd clientId st (.ret () st')) : Leader.Adds Chatter st st' := by
  cases h with
  | notHeld _ => exact ⟨[], .nil, (List.append_nil _).symm⟩
  | held _ hr => exact hr.adds.imp fun _ hl => hl.internal

theorem DeleteEnds.answersBy {r : Except Unit Unit}
    (h : DeleteEnds E session xid fd st (.ret r st')) :
    Leader.Adds (AnswersBy Reply.Plain session xid) st st' := by
  cases h with
  | threw hc hdb => exact .answersBy Reply.plain_paxosError rfl
  | refused hc hdb => exact .answersBy (Reply.plain_bool false) rfl
  | @deleted db hc hdb =>
    have hl : Chatter _ :=
      (chatter_contentEvents (st.deleted E session xid fd db) fd.fileName).append
        (chatter_parentEvents (st.deleted E session xid fd db) fd.fileName)
    refine ⟨_, .reply (Reply.plain_bool true) hl, ?_⟩
    simp

theorem DeleteEnds.adds {r : Except Unit Unit}
    (h : DeleteEnds E session xid fd st (.ret r st')) :
    Leader.Adds (Answers session xid) st st' :=
  h.answersBy.imp fun _ hl => hl.answers

theorem AcquireEnds.adds {busy : Leader δ → Leader δ} {P : List Action → Prop}
    (h : AcquireEnds E session xid fd busy st (.ret () st'))
    (hP : ∀ l, AnswersBy Reply.Plain session xid l → P l)
    (hbusy : ∀ st₁ : Leader δ, Leader.Adds P st₁ (busy st₁)) : Leader.Adds P st st' := by
  cases h with
  | threw hc hdb => exact ⟨_, hP _ (.reply Reply.plain_paxosError .nil), by simp⟩
  | @taken db hc hdb hq =>
    have hl := chatter_lockEvents (st.taken session xid fd db) fd.fileName
    refine ⟨_, hP _ (.reply (Reply.plain_bool true) hl), ?_⟩
    simp
  | busy hc hdb =>
    obtain ⟨l, hl, hlog⟩ := hbusy _
    exact ⟨l, hl, hlog⟩

theorem ClearsQueue.log {fileName : Str} (h : ClearsQueue session fileName st (some st')) :
    st'.log = st.log := by
  cases h with
  | noQueue _ => rfl
  | kept _ _ _ => rfl
  | dropped _ _ => rfl

theorem ClearsQueue.db {fileName : Str} (h : ClearsQueue session fileName st (some st')) :
    st'.db = st.db := by
  cases h with
  | noQueue _ => rfl
  | kept _ _ _ => rfl
  | dropped _ _ => rfl

/-- Whatever `fileClose` does on the way, it answers `true`. -/
theorem CloseEnds.answersBy (h : CloseEnds E session xid fd st (.ret () st')) :
    Leader.Adds (AnswersBy (· = .bool true) session xid) st st' := by
  cases h with
  | deletes hc hreclaim _ hdelete =>
    obtain ⟨l, hl, hlog⟩ := hreclaim.adds
    obtain ⟨l', hl', hlog'⟩ := hdelete.adds
    refine ⟨_, ⟨l ++ l', .bool true, [], rfl, hl.append hl'.internal, .nil, rfl⟩, ?_⟩
    rw [Leader.logged_log, hlog', Leader.touchEphemeral_log, hlog]
    simp
  | closes hc hreclaim _ hclear =>
    obtain ⟨l, hl, hlog⟩ := hreclaim.adds
    refine ⟨_, ⟨l, .bool true, [], rfl, hl, .nil, rfl⟩, ?_⟩
    rw [Leader.logged_log, Leader.unsubscribed_log, hclear.log, Leader.removeFd_log,
      Leader.touchEphemeral_log, hlog]
    simp

theorem CloseEnds.adds (h : CloseEnds E session xid fd st (.ret () st')) :
    Leader.Adds (Answers session xid) st st' :=
  h.answersBy.imp fun _ hl => hl.answers

theorem CloseAllEnds.adds {l : List FdRecord} {o : Outcome Stop (Leader δ) Unit}
    (h : CloseAllEnds E session l st o) (ho : o = .ret () st') : Leader.Adds Chatter st st' := by
  induction h with
  | done =>
    cases ho
    exact ⟨[], .nil, (List.append_nil _).symm⟩
  | stopped _ => cases ho
  | next hclose _ ih => exact hclose.adds.append (ih ho) fun _ _ hl hl' => hl.internal.append hl'

/-- Handling an input adds a segment to the log. -/
theorem Handles.adds {input : Input} (h : Handles E st input (.ret () st')) :
    Leader.Adds (Segment input) st st' := by
  cases h with
  | fileOpen ho =>
    apply Leader.Adds.answered
    cases ho with
    | badArg hc hbad => exact .reply rfl
    | failed hc hname hdb => exact .reply rfl
    | opened hc hname hdb => exact .replyThen rfl (chatter_parentEvents _ _)
  | fileClose ho => exact .answered ho.adds
  | fileDelete ho => exact .answered ho.adds
  | getContentsAndStat ho =>
    apply Leader.Adds.answered
    cases ho with
    | answered hdb hb hfd => exact .reply rfl
  | setContents ho =>
    apply Leader.Adds.answered
    cases ho with
    | failed hdb => exact .reply rfl
    | written hdb => exact ⟨_, .reply _ (chatter_contentEvents _ _), rfl⟩
  | @acquire s x fd _ ho =>
    apply Leader.Adds.call
    refine ho.adds (fun l hl => Or.inl hl.answers) fun st₁ => ?_
    exact ⟨_, Or.inr ⟨fd, rfl, rfl⟩, rfl⟩
  | tryAcquire ho => exact .answered (ho.adds (fun l hl => hl.answers) fun st₁ => .reply rfl)
  | release ho => exact .answered ho.adds
  | startSession ho =>
    apply Leader.Adds.answered
    cases ho with
    | refused hl => exact .reply rfl
    | started hl => exact .reply rfl
  | fileReopen => exact .answered (.reply rfl)
  | disconnect ho =>
    cases ho with
    | left hall =>
      obtain ⟨l, hl, hlog⟩ := hall.adds rfl
      refine ⟨_, .disconnected hl, ?_⟩
      rw [Leader.left_log, hlog, Leader.touchFds_log, Leader.logged_log, List.append_assoc]
      rfl
  | initializeLeader ho =>
    cases ho with
    | initialized hdb => exact ⟨_, .initialized, (Leader.recovered_queue _ _).2⟩

end Handlers

/-! ## Counting -/

/-- Whether an action is a reply to a call. -/
def repliesTo (session : SessionId) (xid : Xid) : Action → Bool
  | .reply s x _ => (s, x) == (session, xid)
  | _ => false

/-- Whether an action puts a call on a lock queue. -/
def enqueues (session : SessionId) (xid : Xid) : Action → Bool
  | .enqueue _ s x => (s, x) == (session, xid)
  | _ => false

/-- Whether an action pops a call off a lock queue. -/
def dequeues (session : SessionId) (xid : Xid) : Action → Bool
  | .dequeue _ s x => (s, x) == (session, xid)
  | _ => false

/-- Whether an action is a call with the given session and transaction id. -/
def calls (session : SessionId) (xid : Xid) : Action → Bool
  | .call s x _ => (s, x) == (session, xid)
  | _ => false

section Counting

variable {session s : SessionId} {xid x : Xid} {l log : List Action}

theorem count_replyOf (hx : x ≠ internalXid) (body : Reply) :
    (Leader.replyOf session xid body).countP (repliesTo s x) =
      if (session, xid) = (s, x) then 1 else 0 := by
  unfold Leader.replyOf
  by_cases hinternal : xid = internalXid
  · rw [if_pos hinternal, if_neg]
    · rfl
    · intro heq
      cases heq
      exact hx hinternal
  · rw [if_neg hinternal]
    by_cases hk : (session, xid) = (s, x)
    · rw [if_pos hk]
      simp [repliesTo, hk]
    · rw [if_neg hk]
      simp only [List.countP_singleton, repliesTo, beq_iff_eq, hk, if_false]

theorem mem_replyOf {body : Reply} {a : Action}
    (h : a ∈ Leader.replyOf session xid body) :
    a = .reply session xid body ∧ xid ≠ internalXid := by
  unfold Leader.replyOf at h
  split_ifs at h with hinternal
  · cases h
  · exact ⟨List.mem_singleton.mp h, hinternal⟩

/-- A reply is not a move of a queue. -/
theorem count_replyOf_other (session : SessionId) (xid : Xid) (s : SessionId) (x : Xid)
    (body : Reply) :
    (Leader.replyOf session xid body).countP (enqueues s x) = 0 ∧
      (Leader.replyOf session xid body).countP (dequeues s x) = 0 := by
  constructor
  · refine List.countP_eq_zero.mpr fun a ha => ?_
    rw [(mem_replyOf ha).1]
    exact Bool.false_ne_true
  · refine List.countP_eq_zero.mpr fun a ha => ?_
    rw [(mem_replyOf ha).1]
    exact Bool.false_ne_true

/-- In chatter every reply goes with a popped waiter. -/
theorem Chatter.count (h : Chatter l) (hx : x ≠ internalXid) :
    l.countP (repliesTo s x) = l.countP (dequeues s x) ∧ l.countP (enqueues s x) = 0 := by
  induction h with
  | nil => exact ⟨rfl, rfl⟩
  | event _ ih =>
    simp only [List.countP_cons, repliesTo, dequeues, enqueues, Bool.false_eq_true, if_false]
    exact ih
  | @handOff f s' x' rest _ ih =>
    obtain ⟨henq, hdeq⟩ := count_replyOf_other s' x' s x (.bool true)
    simp only [List.countP_cons, List.countP_append, count_replyOf hx, henq, hdeq,
      repliesTo, dequeues, enqueues, Bool.false_eq_true, if_false, beq_iff_eq]
    obtain ⟨ih₁, ih₂⟩ := ih
    omega

theorem Chatter.mem (h : Chatter l) {a : Action} (ha : a ∈ l) :
    (∀ s x r, a ≠ .call s x r) ∧ (∀ s body, a ≠ .reply s internalXid body) := by
  induction h with
  | nil => cases ha
  | event _ ih =>
    rcases List.mem_cons.mp ha with rfl | ha
    · simp
    · exact ih ha
  | handOff _ ih =>
    rcases List.mem_cons.mp ha with rfl | ha
    · simp
    · rcases List.mem_append.mp ha with ha | ha
      · obtain ⟨rfl, hx⟩ := mem_replyOf ha
        simp [hx]
      · exact ih ha

theorem Answers.count (h : Answers session xid l) (hx : x ≠ internalXid) :
    l.countP (repliesTo s x) =
        l.countP (dequeues s x) + (if (session, xid) = (s, x) then 1 else 0) ∧
      l.countP (enqueues s x) = 0 := by
  obtain ⟨before, body, after, hbefore, hafter, rfl⟩ := h
  obtain ⟨b₁, b₂⟩ := hbefore.count (s := s) hx
  obtain ⟨a₁, a₂⟩ := hafter.count (s := s) hx
  obtain ⟨henq, hdeq⟩ := count_replyOf_other session xid s x body
  simp only [List.countP_append, count_replyOf hx, henq, hdeq]
  omega

/-- What follows the call in its segment holds no call and no internal reply. -/
theorem Serves.mem {request : Request} (h : Serves session xid request l) {a : Action}
    (ha : a ∈ l) : (∀ s x r, a ≠ .call s x r) ∧ (∀ s body, a ≠ .reply s internalXid body) := by
  rcases h with ⟨before, body, after, hbefore, hafter, rfl⟩ | ⟨fd, rfl, rfl⟩
  · rcases List.mem_append.mp ha with ha | ha
    · rcases List.mem_append.mp ha with ha | ha
      · exact hbefore.mem ha
      · obtain ⟨rfl, hx⟩ := mem_replyOf ha
        simp [hx]
    · exact hafter.mem ha
  · rw [List.mem_singleton] at ha
    subst ha
    simp

theorem calls_eq_zero (h : ∀ a ∈ l, ∀ s x r, a ≠ .call s x r) : l.countP (calls s x) = 0 := by
  refine List.countP_eq_zero.mpr fun a ha => ?_
  cases a with
  | call s' x' r => exact absurd rfl (h _ ha s' x' r)
  | _ => exact Bool.false_ne_true

/-- A segment answers its call or queues it, and answers every waiter it pops. -/
theorem Segment.count {input : Input} (h : Segment input l) (hx : x ≠ internalXid) :
    l.countP (repliesTo s x) + l.countP (enqueues s x) =
        l.countP (dequeues s x) + l.countP (calls s x) ∧
      l.countP (enqueues s x) ≤ l.countP (calls s x) ∧
      (l.countP (enqueues s x) ≠ 0 → ∃ fd, .call s x (.acquire fd) ∈ l) := by
  cases h with
  | @call s' x' request l hl =>
    have hcalls : l.countP (calls s x) = 0 := calls_eq_zero fun a ha => (hl.mem ha).1
    simp only [List.countP_cons, repliesTo, enqueues, dequeues, calls, Bool.false_eq_true,
      if_false, beq_iff_eq, hcalls]
    rcases hl with hl | ⟨fd, rfl, rfl⟩
    · obtain ⟨hreply, henq⟩ := hl.count (s := s) hx
      rw [hreply, henq]
      refine ⟨?_, Nat.zero_le _, fun hne => absurd rfl hne⟩
      omega
    · simp only [List.countP_singleton, repliesTo, enqueues, dequeues, Bool.false_eq_true,
        if_false, beq_iff_eq]
      refine ⟨by omega, by omega, fun hne => ?_⟩
      split_ifs at hne with hk
      · cases hk
        exact ⟨fd, List.mem_cons_self⟩
      · exact absurd rfl hne
  | @disconnected s' l hl =>
    have hcalls : l.countP (calls s x) = 0 := calls_eq_zero fun a ha => (hl.mem ha).1
    obtain ⟨hreply, henq⟩ := hl.count (s := s) hx
    simp only [List.countP_cons, repliesTo, enqueues, dequeues, calls, Bool.false_eq_true,
      if_false, hcalls, hreply, henq]
    exact ⟨trivial, Nat.le_refl _, fun hne => absurd rfl hne⟩
  | initialized =>
    simp [repliesTo, enqueues, dequeues, calls]

/-- A segment holds at most the call it starts with, and no internal reply. -/
theorem Segment.mem {input : Input} (h : Segment input l) :
    (∀ s x r, .call s x r ∈ l → input = .rpc s x r) ∧
      (∀ s x, l.countP (calls s x) ≤ 1) ∧ ∀ s body, .reply s internalXid body ∉ l := by
  cases h with
  | @call s' x' request l hl =>
    refine ⟨fun s x r hmem => ?_, fun s x => ?_, fun s body hmem => ?_⟩
    · rcases List.mem_cons.mp hmem with hcall | hmem
      · cases hcall
        rfl
      · exact absurd rfl ((hl.mem hmem).1 s x r)
    · have hcalls : l.countP (calls s x) = 0 := calls_eq_zero fun a ha => (hl.mem ha).1
      rw [List.countP_cons, hcalls]
      split_ifs <;> omega
    · rcases List.mem_cons.mp hmem with hcall | hmem
      · cases hcall
      · exact (hl.mem hmem).2 s body rfl
  | @disconnected s' l hl =>
    refine ⟨fun s x r hmem => ?_, fun s x => ?_, fun s body hmem => ?_⟩
    · rcases List.mem_cons.mp hmem with hcall | hmem
      · cases hcall
      · exact absurd rfl ((hl.mem hmem).1 s x r)
    · have hcalls : l.countP (calls s x) = 0 := calls_eq_zero fun a ha => (hl.mem ha).1
      rw [List.countP_cons, hcalls]
      split_ifs <;> omega
    · rcases List.mem_cons.mp hmem with hcall | hmem
      · cases hcall
      · exact (hl.mem hmem).2 s body rfl
  | initialized => simp [calls]

/-- Over a whole log: every call has been answered or queued, every popped
    waiter answered, and only an `acquire` is ever queued, once. -/
theorem Disciplined.count (h : Disciplined log) (hx : x ≠ internalXid) :
    log.countP (repliesTo s x) + log.countP (enqueues s x) =
        log.countP (dequeues s x) + log.countP (calls s x) ∧
      log.countP (enqueues s x) ≤ log.countP (calls s x) ∧
      (log.countP (enqueues s x) ≠ 0 → ∃ fd, .call s x (.acquire fd) ∈ log) := by
  induction h with
  | nil => exact ⟨rfl, Nat.le_refl _, fun hne => absurd rfl hne⟩
  | @append log l input _ hl ih =>
    obtain ⟨hbal, hle, hmem⟩ := hl.count (s := s) hx
    obtain ⟨ihbal, ihle, ihmem⟩ := ih
    simp only [List.countP_append, List.mem_append]
    refine ⟨by omega, by omega, fun hne => ?_⟩
    by_cases hl : l.countP (enqueues s x) = 0
    · obtain ⟨fd, hfd⟩ := ihmem (by omega)
      exact ⟨fd, Or.inl hfd⟩
    · obtain ⟨fd, hfd⟩ := hmem hl
      exact ⟨fd, Or.inr hfd⟩

theorem Disciplined.internal (h : Disciplined log) : ∀ s body, .reply s internalXid body ∉ log := by
  induction h with
  | nil => simp
  | append _ hl ih =>
    intro s body hmem
    rcases List.mem_append.mp hmem with hmem | hmem
    · exact ih s body hmem
    · exact hl.mem.2.2 s body hmem

/-- If each file pops a call at most as often as it queued it, so do all files together. -/
theorem dequeues_le_enqueues
    (h : ∀ f, log.count (.dequeue f s x) ≤ log.count (.enqueue f s x)) :
    log.countP (dequeues s x) ≤ log.countP (enqueues s x) := by
  let popFile : Action → Option Str := fun a =>
    match a with
    | .dequeue f s' x' => if (s', x') = (s, x) then some f else none
    | _ => none
  let pushFile : Action → Option Str := fun a =>
    match a with
    | .enqueue f s' x' => if (s', x') = (s, x) then some f else none
    | _ => none
  have hpop : log.countP (dequeues s x) = (log.filterMap popFile).length := by
    rw [List.length_filterMap_eq_countP]
    apply List.countP_congr
    intro a _
    cases a <;> simp [popFile, dequeues]
  have hpush : log.countP (enqueues s x) = (log.filterMap pushFile).length := by
    rw [List.length_filterMap_eq_countP]
    apply List.countP_congr
    intro a _
    cases a <;> simp [pushFile, enqueues]
  have hle : (log.filterMap popFile).Subperm (log.filterMap pushFile) := by
    rw [List.subperm_ext_iff]
    intro f _
    rw [List.count_filterMap, List.count_filterMap]
    have hpopped : (fun a => popFile a == some f) = (· == Action.dequeue f s x) := by
      funext a
      cases a with
      | dequeue _ _ _ =>
        rw [Bool.eq_iff_iff]
        simp only [popFile, beq_iff_eq, Action.dequeue.injEq, Prod.mk.injEq,
          Option.ite_none_right_eq_some, Option.some.injEq]
        exact and_comm
      | _ => rfl
    have hpushed : (fun a => pushFile a == some f) = (· == Action.enqueue f s x) := by
      funext a
      cases a with
      | enqueue _ _ _ =>
        rw [Bool.eq_iff_iff]
        simp only [pushFile, beq_iff_eq, Action.enqueue.injEq, Prod.mk.injEq,
          Option.ite_none_right_eq_some, Option.some.injEq]
        exact and_comm
      | _ => rfl
    rw [hpopped, hpushed]
    exact h f
  rw [hpop, hpush]
  exact hle.length_le

end Counting

/-! ## Runs with distinct transaction ids -/

/-- Each session uses distinct transaction ids other than the internal one. -/
def DistinctXids {δ : Type} (st : Leader δ) : Input → Prop
  | .rpc session xid _ => xid ≠ internalXid ∧ st.log.countP (calls session xid) = 0
  | _ => True

instance {δ : Type} (st : Leader δ) : ∀ input, Decidable (DistinctXids st input)
  | .rpc session xid _ =>
    inferInstanceAs (Decidable (xid ≠ internalXid ∧ st.log.countP (calls session xid) = 0))
  | .disconnect _ => inferInstanceAs (Decidable True)
  | .initializeLeader => inferInstanceAs (Decidable True)

/-- What the log of such a run says about replies. -/
structure ReplyDiscipline (log : List Action) : Prop where
  /-- A handler adds its own reply, or its entry in a lock queue, among chatter;
      the internal calls of `fileClose` and `disconnect` add chatter only. -/
  segments : Disciplined log
  answered : AnsweredAtOnce log
  internal : ∀ session body, .reply session internalXid body ∉ log
  /-- A call other than `acquire` has exactly one reply. -/
  once : ∀ session xid request, .call session xid request ∈ log →
    (∀ fd, request ≠ .acquire fd) → log.countP (repliesTo session xid) = 1
  /-- An `acquire` is answered by itself, or queued and answered at most once,
      when it is popped. -/
  acquire : ∀ session xid fd, .call session xid (.acquire fd) ∈ log →
    (log.countP (enqueues session xid) = 0 ∧ log.countP (dequeues session xid) = 0 ∧
        log.countP (repliesTo session xid) = 1) ∨
      (log.countP (enqueues session xid) = 1 ∧ log.countP (repliesTo session xid) ≤ 1 ∧
        log.countP (repliesTo session xid) = log.countP (dequeues session xid))

/-- The calls of a log have distinct keys, none of them internal. -/
structure CallsDistinct (log : List Action) : Prop where
  external : ∀ session xid request, .call session xid request ∈ log → xid ≠ internalXid
  count : ∀ session xid, log.countP (calls session xid) ≤ 1
  unique : ∀ session xid r r', .call session xid r ∈ log → .call session xid r' ∈ log → r = r'

theorem calls_pos {session : SessionId} {xid : Xid} {request : Request} {log : List Action}
    (h : .call session xid request ∈ log) : 0 < log.countP (calls session xid) :=
  List.countP_pos_iff.mpr ⟨_, h, by simp [calls]⟩

/-- A segment for a call with a new key keeps the calls distinct. -/
theorem CallsDistinct.append {log l : List Action} {input : Input} (h : CallsDistinct log)
    (hl : Segment input l)
    (hnew : ∀ s x r, input = .rpc s x r → x ≠ internalXid ∧ log.countP (calls s x) = 0) :
    CallsDistinct (log ++ l) := by
  obtain ⟨hcall, hcount, _⟩ := hl.mem
  have hnone : ∀ s x r r', input = .rpc s x r → .call s x r' ∉ log := by
    intro s x r r' hinput hmem
    have hpos := calls_pos hmem
    rw [(hnew s x r hinput).2] at hpos
    exact Nat.lt_irrefl 0 hpos
  constructor
  · intro s x r hmem
    rcases List.mem_append.mp hmem with hmem | hmem
    · exact h.external s x r hmem
    · exact (hnew s x r (hcall s x r hmem)).1
  · intro s x
    rw [List.countP_append]
    have hold := h.count s x
    have hadd := hcount s x
    by_cases hzero : l.countP (calls s x) = 0
    · omega
    · obtain ⟨a, ha, hkey⟩ := List.countP_pos_iff.mp (Nat.pos_of_ne_zero hzero)
      cases a with
      | call s' x' r =>
        simp only [calls, beq_iff_eq, Prod.mk.injEq] at hkey
        obtain ⟨rfl, rfl⟩ := hkey
        have hlog := (hnew s' x' r (hcall s' x' r ha)).2
        omega
      | _ => cases hkey
  · intro s x r r' hmem hmem'
    rcases List.mem_append.mp hmem with hmem | hmem
    · rcases List.mem_append.mp hmem' with hmem' | hmem'
      · exact h.unique s x r r' hmem hmem'
      · exact absurd hmem (hnone s x r' r (hcall s x r' hmem'))
    · have hinput := hcall s x r hmem
      rcases List.mem_append.mp hmem' with hmem' | hmem'
      · exact absurd hmem' (hnone s x r r' hinput)
      · have hinput' := hcall s x r' hmem'
        rw [hinput] at hinput'
        cases hinput'
        rfl

/-- The counts of a disciplined log, read for one call. -/
theorem replyDiscipline_of {log : List Action} {queues : UMap Str (List (SessionId × Xid))}
    (hd : Disciplined log) (hc : CallsDistinct log) (hq : QueueHistory queues log) :
    ReplyDiscipline log := by
  have hpopped : ∀ s x, log.countP (dequeues s x) ≤ log.countP (enqueues s x) := by
    intro s x
    apply dequeues_le_enqueues
    intro f
    exact Nat.le_trans (Nat.le_add_right _ _) (hq.total f s x)
  refine ⟨hd, hq.answered, hd.internal, ?_, ?_⟩
  · intro s x request hcall hnot
    obtain ⟨hbal, hle, hmem⟩ := hd.count (s := s) (hc.external s x request hcall)
    have hone := hc.count s x
    have hpos := calls_pos hcall
    have henq : log.countP (enqueues s x) = 0 := by
      by_contra hne
      obtain ⟨fd, hfd⟩ := hmem hne
      exact hnot fd (hc.unique s x request (.acquire fd) hcall hfd)
    have hdeq := hpopped s x
    omega
  · intro s x fd hcall
    obtain ⟨hbal, hle, _⟩ := hd.count (s := s) (hc.external s x (.acquire fd) hcall)
    have hone := hc.count s x
    have hpos := calls_pos hcall
    have hdeq := hpopped s x
    by_cases henq : log.countP (enqueues s x) = 0
    · left
      omega
    · right
      omega

/-- In every run in which each session uses distinct transaction ids other than
    the internal one, over any database: a call other than `acquire` has exactly
    one reply, an `acquire` at most one, from itself or from the hand-off that
    pops it, and no internal call has any. -/
theorem replyDiscipline_reachable {δ : Type} (E : Service δ) (db : δ)
    (masterSequenceNumber : UInt64) (st : Leader δ)
    (h : (E.leader db masterSequenceNumber).Reach DistinctXids st) :
    ReplyDiscipline st.log := by
  have hinv : Disciplined st.log ∧ CallsDistinct st.log ∧ st.Fifo := by
    refine h.invariant (I := fun st => Disciplined st.log ∧ CallsDistinct st.log ∧ st.Fifo) ?_ ?_
    · rintro st rfl
      have hqueue : (Leader.fresh db masterSequenceNumber).Fifo :=
        queueHistory_reachable E db masterSequenceNumber _ (.init rfl)
      refine ⟨.nil, ⟨?_, ?_, ?_⟩, hqueue⟩
      · simp [Leader.fresh]
      · simp [Leader.fresh]
      · simp [Leader.fresh]
    · intro st st' input _ hi hok hstep
      obtain ⟨hd, hc, hq⟩ := hi
      have hends := step_ends E hstep
      obtain ⟨l, hl, hlog⟩ := hends.adds
      rw [hlog]
      refine ⟨hd.append hl, hc.append hl ?_, hends.fifo hq⟩
      rintro s x r rfl
      exact hok
  obtain ⟨hd, hc, hq⟩ := hinv
  exact replyDiscipline_of hd hc hq

theorem replyDiscipline_contention :
    ∃ st, ((Service.paxos .refusing (fun _ => 0) inlineNamed).leader .empty 0).exec
      DistinctXids contention
      (.fresh .empty 0) = some st ∧ ReplyDiscipline st.log := by
  have hrun : (((Service.paxos .refusing (fun _ => 0) inlineNamed).leader .empty 0).exec
      DistinctXids contention
      (.fresh .empty 0)).isSome = true := by decide
  obtain ⟨st, hst⟩ := Option.isSome_iff_exists.mp hrun
  have hreach := Lts.Reach.exec (.init rfl) hst
  exact ⟨st, hst, replyDiscipline_reachable _ _ _ st hreach⟩

end SimpleChubby
