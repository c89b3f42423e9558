import SimpleChubby.Leader.Spec

/-!
# The lock queues

Waiters leave a lock queue in the order in which they joined it, each at most
once. The history of the pushes and pops of a file since the leader was last
initialised is read off the log; together with the queue in memory it obeys one
law, which every handler keeps over any database.
-/

namespace SimpleChubby

/-- The entries `acquire` has pushed for a file since the last initialisation. -/
def pushed (fileName : Str) (log : List Action) : List (SessionId × Xid) :=
  log.foldl (fun entries action =>
    match action with
    | .initialized => []
    | .enqueue f session xid => if f = fileName then entries ++ [(session, xid)] else entries
    | _ => entries) []

/-- The entries `release` has popped for a file since the last initialisation. -/
def popped (fileName : Str) (log : List Action) : List (SessionId × Xid) :=
  log.foldl (fun entries action =>
    match action with
    | .initialized => []
    | .dequeue f session xid => if f = fileName then entries ++ [(session, xid)] else entries
    | _ => entries) []

/-- Every popped entry is answered before anything else happens; an entry with
    the internal transaction id has no reply. -/
def AnsweredAtOnce : List Action → Prop
  | [] => True
  | .dequeue _ session xid :: rest =>
    Leader.replyOf session xid (.bool true) <+: rest ∧ AnsweredAtOnce rest
  | _ :: rest => AnsweredAtOnce rest

/-- The actions that leave every lock queue alone. -/
def Action.quiet : Action → Bool
  | .initialized => false
  | .enqueue _ _ _ => false
  | .dequeue _ _ _ => false
  | _ => true

section Log

variable {fileName f : Str} {session : SessionId} {xid : Xid} {log l : List Action}

theorem pushed_enqueue : pushed fileName (log ++ [.enqueue f session xid]) =
    if f = fileName then pushed fileName log ++ [(session, xid)] else pushed fileName log := by
  simp [pushed]

theorem popped_enqueue : popped fileName (log ++ [.enqueue f session xid]) =
    popped fileName log := by
  simp [popped]

theorem pushed_dequeue : pushed fileName (log ++ [.dequeue f session xid]) =
    pushed fileName log := by
  simp [pushed]

theorem popped_dequeue : popped fileName (log ++ [.dequeue f session xid]) =
    if f = fileName then popped fileName log ++ [(session, xid)] else popped fileName log := by
  simp [popped]

theorem pushed_initialized : pushed fileName (log ++ [.initialized]) = [] := by
  simp [pushed]

theorem popped_initialized : popped fileName (log ++ [.initialized]) = [] := by
  simp [popped]

theorem pushed_quiet (h : ∀ a ∈ l, a.quiet = true) :
    pushed fileName (log ++ l) = pushed fileName log := by
  induction l generalizing log with
  | nil => rw [List.append_nil]
  | cons a rest ih =>
    have ha := h a List.mem_cons_self
    rw [List.append_cons, ih fun b hb => h b (List.mem_cons_of_mem _ hb)]
    cases a with
    | initialized => cases ha
    | enqueue _ _ _ => cases ha
    | dequeue _ _ _ => cases ha
    | _ => simp [pushed]

theorem popped_quiet (h : ∀ a ∈ l, a.quiet = true) :
    popped fileName (log ++ l) = popped fileName log := by
  induction l generalizing log with
  | nil => rw [List.append_nil]
  | cons a rest ih =>
    have ha := h a List.mem_cons_self
    rw [List.append_cons, ih fun b hb => h b (List.mem_cons_of_mem _ hb)]
    cases a with
    | initialized => cases ha
    | enqueue _ _ _ => cases ha
    | dequeue _ _ _ => cases ha
    | _ => simp [popped]

theorem count_quiet (h : ∀ a ∈ l, a.quiet = true) (fileName : Str) (session : SessionId)
    (xid : Xid) :
    l.count (.enqueue fileName session xid) = 0 ∧ l.count (.dequeue fileName session xid) = 0 := by
  constructor
  · refine List.count_eq_zero.mpr fun hmem => ?_
    cases h _ hmem
  · refine List.count_eq_zero.mpr fun hmem => ?_
    cases h _ hmem

theorem AnsweredAtOnce.append (h : AnsweredAtOnce log) (hl : AnsweredAtOnce l) :
    AnsweredAtOnce (log ++ l) := by
  induction log with
  | nil => exact hl
  | cons a rest ih =>
    cases a with
    | dequeue f session xid =>
      obtain ⟨hreply, hrest⟩ := h
      exact ⟨hreply.trans (List.prefix_append rest l), ih hrest⟩
    | _ => exact ih h

theorem AnsweredAtOnce.quiet (h : ∀ a ∈ l, a.quiet = true) : AnsweredAtOnce l := by
  induction l with
  | nil => trivial
  | cons a rest ih =>
    have ha := h a List.mem_cons_self
    have hrest := ih fun b hb => h b (List.mem_cons_of_mem _ hb)
    cases a with
    | dequeue _ _ _ => cases ha
    | _ => exact hrest

theorem quiet_replyOf {body : Reply} : ∀ a ∈ Leader.replyOf session xid body, a.quiet = true := by
  intro a ha
  unfold Leader.replyOf at ha
  split_ifs at ha
  · cases ha
  · rw [List.mem_singleton] at ha
    rw [ha]
    rfl

variable {δ : Type} {st : Leader δ}

theorem quiet_contentEvents : ∀ a ∈ st.contentEvents fileName, a.quiet = true := by
  intro a ha
  obtain ⟨s, _, rfl⟩ := List.mem_map.mp ha
  rfl

theorem quiet_lockEvents : ∀ a ∈ st.lockEvents fileName, a.quiet = true := by
  intro a ha
  obtain ⟨s, _, rfl⟩ := List.mem_map.mp ha
  rfl

theorem quiet_parentEvents : ∀ a ∈ st.parentEvents fileName, a.quiet = true := by
  intro a ha
  unfold Leader.parentEvents at ha
  split_ifs at ha
  · cases ha
  · exact quiet_contentEvents a ha

end Log

/-- The law of the lock queues: what was popped, followed by what still waits,
    is a subsequence of what was pushed; no stored queue is empty; over the
    whole log an entry is popped or waits at most as often as it was pushed. -/
structure QueueHistory (queues : UMap Str (List (SessionId × Xid))) (log : List Action) :
    Prop where
  order : ∀ f, (popped f log ++ queues.get f).Sublist (pushed f log)
  nonempty : ∀ f, queues.find f ≠ some []
  answered : AnsweredAtOnce log
  total : ∀ f s x, log.count (.dequeue f s x) + (queues.get f).count (s, x) ≤
    log.count (.enqueue f s x)

theorem QueueHistory.empty : QueueHistory .empty [] where
  order _ := List.Sublist.refl _
  nonempty _ := by simp
  answered := trivial
  total _ _ _ := Nat.le_refl _

variable {δ : Type}

/-- The law for the queues and the log of a leader. -/
abbrev Leader.Fifo (st : Leader δ) : Prop := QueueHistory st.file2lockQueueMap st.log

namespace Leader.Fifo

variable {st : Leader δ} {fileName : Str} {session : SessionId} {xid : Xid}

theorem logged (h : st.Fifo) {l : List Action} (hl : ∀ a ∈ l, a.quiet = true) :
    (st.logged l).Fifo where
  order f := by
    rw [Leader.logged_log, pushed_quiet hl, popped_quiet hl]
    exact h.order f
  nonempty := h.nonempty
  answered := h.answered.append (.quiet hl)
  total f s x := by
    obtain ⟨henq, hdeq⟩ := count_quiet hl f s x
    rw [Leader.logged_log, List.count_append, List.count_append, henq, hdeq]
    exact h.total f s x

theorem enqueue (h : st.Fifo) : (st.enqueue fileName session xid).Fifo where
  order f := by
    simp only [enqueue_log, enqueue_file2lockQueueMap, pushed_enqueue, popped_enqueue,
      UMap.get_alter]
    by_cases hf : f = fileName
    · subst hf
      simp only [if_true, ← List.append_assoc]
      exact (h.order f).append (List.Sublist.refl _)
    · rw [if_neg hf, if_neg (Ne.symm hf)]
      exact h.order f
  nonempty f := by
    simp only [enqueue_file2lockQueueMap, UMap.find_alter]
    split_ifs with hf
    · simp
    · exact h.nonempty f
  answered := h.answered.append trivial
  total f s x := by
    have htotal := h.total f s x
    simp only [enqueue_log, enqueue_file2lockQueueMap, UMap.get_alter, List.count_append,
      List.count_singleton, beq_iff_eq, Action.enqueue.injEq, reduceCtorEq, if_false]
    by_cases hf : f = fileName
    · subst hf
      rw [if_pos rfl, List.count_append, List.count_singleton]
      by_cases hk : (session, xid) = (s, x)
      · cases hk
        simp only [beq_self_eq_true, if_true, and_self]
        omega
      · rw [if_neg (by simpa using hk)]
        omega
    · rw [if_neg hf]
      omega

theorem dropQueue (h : st.Fifo) : (st.dropQueue fileName).Fifo where
  order f := by
    simp only [dropQueue_log, dropQueue_file2lockQueueMap, UMap.get_erase]
    split_ifs with hf
    · refine List.Sublist.trans ?_ (h.order f)
      exact (List.Sublist.refl _).append (List.nil_sublist _)
    · exact h.order f
  nonempty f := by
    simp only [dropQueue_file2lockQueueMap, UMap.find_erase]
    split_ifs with hf
    · simp
    · exact h.nonempty f
  answered := h.answered
  total f s x := by
    have htotal := h.total f s x
    simp only [dropQueue_log, dropQueue_file2lockQueueMap, UMap.get_erase]
    split_ifs with hf
    · have hnil : (default : List (SessionId × Xid)).count (s, x) = 0 := rfl
      omega
    · exact htotal

/-- Popping the first waiter moves it from the queue to the history. -/
theorem order_granted (h : st.Fifo) {rest : List (SessionId × Xid)}
    (hq : st.queue fileName = some ((session, xid) :: rest)) (f : Str) :
    (popped f (st.granted session xid fileName rest).log ++
      (st.granted session xid fileName rest).file2lockQueueMap.get f).Sublist
        (pushed f (st.granted session xid fileName rest).log) := by
  have hget : st.file2lockQueueMap.get fileName = (session, xid) :: rest :=
    UMap.get_of_find_some hq
  simp only [logged_log, hold_log, touchClient_log, dequeue_log, logged_file2lockQueueMap,
    hold_file2lockQueueMap, touchClient_file2lockQueueMap, dequeue_file2lockQueueMap,
    pushed_quiet quiet_replyOf, popped_quiet quiet_replyOf, pushed_dequeue, popped_dequeue,
    UMap.get_set]
  by_cases hf : f = fileName
  · subst hf
    have horder := h.order f
    rw [hget] at horder
    simpa using horder
  · rw [if_neg hf, if_neg (Ne.symm hf)]
    exact h.order f

theorem answered_granted (h : st.Fifo) (rest : List (SessionId × Xid)) :
    AnsweredAtOnce (st.granted session xid fileName rest).log := by
  simp only [logged_log, hold_log, touchClient_log, dequeue_log, List.append_assoc]
  refine h.answered.append ⟨List.prefix_rfl, .quiet quiet_replyOf⟩

theorem total_granted (h : st.Fifo) {rest : List (SessionId × Xid)}
    (hq : st.queue fileName = some ((session, xid) :: rest)) (f : Str) (s : SessionId) (x : Xid) :
    (st.granted session xid fileName rest).log.count (.dequeue f s x) +
        ((st.granted session xid fileName rest).file2lockQueueMap.get f).count (s, x) ≤
      (st.granted session xid fileName rest).log.count (.enqueue f s x) := by
  have hget : st.file2lockQueueMap.get fileName = (session, xid) :: rest :=
    UMap.get_of_find_some hq
  have htotal := h.total f s x
  have hquiet : ∀ a ∈ replyOf session xid (.bool true), a.quiet = true := quiet_replyOf
  have hreply := count_quiet hquiet f s x
  simp only [logged_log, hold_log, touchClient_log, dequeue_log, logged_file2lockQueueMap,
    hold_file2lockQueueMap, touchClient_file2lockQueueMap, dequeue_file2lockQueueMap,
    List.count_append, hreply.1, hreply.2, UMap.get_set, List.count_singleton, beq_iff_eq,
    Action.dequeue.injEq, reduceCtorEq, if_false]
  by_cases hf : f = fileName
  · subst hf
    rw [hget, List.count_cons] at htotal
    rw [if_pos rfl]
    by_cases hk : (session, xid) = (s, x)
    · cases hk
      simp only [beq_self_eq_true, if_true, and_self] at htotal ⊢
      omega
    · have hne : ¬ (f = f ∧ session = s ∧ xid = x) := by simpa using hk
      rw [if_neg hne]
      omega
  · rw [if_neg hf, if_neg fun hcon => hf hcon.1.symm]
    omega

end Leader.Fifo

/-! ## The handlers keep the law -/

section Handlers

variable {E : Service δ} {session : SessionId} {xid : Xid} {fd : FileHandler} {st st' : Leader δ}

/-- The hand-off pops one waiter and never leaves an empty queue behind. -/
theorem HandOffEnds.fifo {fileName : Str} (h : HandOffEnds fileName st (.ret () st'))
    (hf : st.Fifo) : st'.Fifo := by
  cases h with
  | noQueue hq => exact hf
  | @lastWaiter session xid hq hc =>
    refine ⟨fun f => ?_, fun f => ?_, hf.answered_granted [], fun f s x => ?_⟩
    · have horder := hf.order_granted hq f
      refine List.Sublist.trans ((List.Sublist.refl _).append ?_) horder
      rw [Leader.dropQueue_file2lockQueueMap, UMap.get_erase]
      split_ifs
      · exact List.nil_sublist _
      · exact List.Sublist.refl _
    · simp only [Leader.dropQueue_file2lockQueueMap, UMap.find_erase,
        Leader.logged_file2lockQueueMap, Leader.hold_file2lockQueueMap,
        Leader.touchClient_file2lockQueueMap, Leader.dequeue_file2lockQueueMap, UMap.find_set]
      split_ifs
      · simp
      · exact hf.nonempty f
    · have htotal := hf.total_granted hq f s x
      rw [Leader.dropQueue_file2lockQueueMap, UMap.get_erase]
      split_ifs
      · have hnil : (default : List (SessionId × Xid)).count (s, x) = 0 := rfl
        rw [Leader.dropQueue_log]
        omega
      · exact htotal
  | @moreWaiters session xid rest hq hrest hc =>
    refine ⟨fun f => hf.order_granted hq f, fun f => ?_, hf.answered_granted rest,
      hf.total_granted hq⟩
    simp only [Leader.logged_file2lockQueueMap, Leader.hold_file2lockQueueMap,
      Leader.touchClient_file2lockQueueMap, Leader.dequeue_file2lockQueueMap, UMap.find_set]
    split_ifs
    · simpa using hrest
    · exact hf.nonempty f

theorem ReleaseEnds.fifo (h : ReleaseEnds E session xid fd st (.ret () st')) (hf : st.Fifo) :
    st'.Fifo := by
  have hentered : ∀ db, ((st.entered session fd).setDb db).Fifo := fun _ => hf
  cases h with
  | threw hc hdb => exact (hentered _).logged quiet_replyOf
  | refused hc hdb => exact (hentered _).logged quiet_replyOf
  | @released db _ hc hdb hoff =>
    have hreleased : (st.released session xid fd db).Fifo := (hentered db).logged quiet_replyOf
    exact (hoff.fifo hreleased).logged quiet_lockEvents

theorem ReclaimEnds.fifo {clientId : Str}
    (h : ReclaimEnds E session fd clientId st (.ret () st')) (hf : st.Fifo) : st'.Fifo := by
  cases h with
  | notHeld _ => exact hf
  | held _ hr => exact hr.fifo hf

theorem DeleteEnds.fifo {r : Except Unit Unit} (h : DeleteEnds E session xid fd st (.ret r st'))
    (hf : st.Fifo) : st'.Fifo := by
  have hentered : ∀ db, ((st.entered session fd).setDb db).Fifo := fun _ => hf
  cases h with
  | threw hc hdb => exact (hentered _).logged quiet_replyOf
  | refused hc hdb => exact (hentered _).logged quiet_replyOf
  | @deleted db hc hdb =>
    have hdropped : (((st.entered session fd).setDb db).dropQueue fd.fileName).Fifo :=
      (hentered db).dropQueue
    have hdeleted : (st.deleted E session xid fd db).Fifo := hdropped.logged quiet_replyOf
    refine hdeleted.logged fun a ha => ?_
    rcases List.mem_append.mp ha with ha | ha
    · exact quiet_contentEvents a ha
    · exact quiet_parentEvents a ha

theorem AcquireEnds.fifo {busy : Leader δ → Leader δ}
    (h : AcquireEnds E session xid fd busy st (.ret () st')) (hf : st.Fifo)
    (hbusy : ∀ st₁ : Leader δ, st₁.Fifo → (busy st₁).Fifo) : st'.Fifo := by
  have hentered : ∀ db, ((st.entered session fd).setDb db).Fifo := fun _ => hf
  cases h with
  | threw hc hdb => exact (hentered _).logged quiet_replyOf
  | @taken db hc hdb hq =>
    have htaken : (st.taken session xid fd db).Fifo := (hentered db).logged quiet_replyOf
    exact htaken.logged quiet_lockEvents
  | @busy db hc hdb => exact hbusy _ (hentered db)

theorem ClearsQueue.fifo {fileName : Str} (h : ClearsQueue session fileName st (some st'))
    (hf : st.Fifo) : st'.Fifo := by
  cases h with
  | noQueue _ => exact hf
  | kept _ _ _ => exact hf
  | dropped _ _ => exact hf.dropQueue

theorem CloseEnds.fifo (h : CloseEnds E session xid fd st (.ret () st')) (hf : st.Fifo) :
    st'.Fifo := by
  have hentered : (st.entered session fd).Fifo := hf
  cases h with
  | deletes hc hreclaim _ hdelete =>
    have hreclaimed := hreclaim.fifo hentered
    exact (hdelete.fifo hreclaimed).logged quiet_replyOf
  | closes hc hreclaim _ hclear =>
    have hreclaimed := hreclaim.fifo hentered
    have hcleared := hclear.fifo hreclaimed
    refine Leader.Fifo.logged ?_ quiet_replyOf
    exact hcleared

theorem CloseAllEnds.fifo {l : List FdRecord} {o : Outcome Stop (Leader δ) Unit}
    (h : CloseAllEnds E session l st o) (hf : st.Fifo) (ho : o = .ret () st') : st'.Fifo := by
  induction h with
  | done =>
    cases ho
    exact hf
  | stopped _ => cases ho
  | next hclose _ ih => exact ih (hclose.fifo hf) ho

theorem Leader.recovered_queue (files : List (Str × Str)) (st : Leader δ) :
    (st.recovered files).file2lockQueueMap = st.file2lockQueueMap ∧
      (st.recovered files).log = st.log := by
  obtain ⟨held, hrecovered⟩ := st.recovered_eq files
  rw [hrecovered]
  exact ⟨rfl, rfl⟩

/-- One input keeps the law of the lock queues. -/
theorem Handles.fifo {input : Input} (h : Handles E st input (.ret () st')) (hf : st.Fifo) :
    st'.Fifo := by
  have hcall : ∀ session xid request, (st.logged [.call session xid request]).Fifo :=
    fun _ _ _ => hf.logged (by simp [Action.quiet])
  cases h with
  | fileOpen ho =>
    cases ho with
    | badArg hc hbad =>
      refine Leader.Fifo.logged ?_ quiet_replyOf
      exact hcall _ _ _
    | failed hc hname hdb =>
      refine Leader.Fifo.logged ?_ quiet_replyOf
      exact hcall _ _ _
    | opened hc hname hdb =>
      refine Leader.Fifo.logged (Leader.Fifo.logged ?_ quiet_replyOf) quiet_parentEvents
      exact hcall _ _ _
  | fileClose ho => exact ho.fifo (hcall _ _ _)
  | fileDelete ho => exact ho.fifo (hcall _ _ _)
  | getContentsAndStat ho =>
    cases ho with
    | answered hdb hb hfd =>
      refine Leader.Fifo.logged ?_ quiet_replyOf
      exact hcall _ _ _
  | setContents ho =>
    cases ho with
    | failed hdb =>
      refine Leader.Fifo.logged ?_ quiet_replyOf
      exact hcall _ _ _
    | written hdb =>
      refine Leader.Fifo.logged ?_ fun a ha => ?_
      · exact hcall _ _ _
      · rcases List.mem_append.mp ha with ha | ha
        · exact quiet_replyOf a ha
        · exact quiet_contentEvents a ha
  | acquire ho => exact ho.fifo (hcall _ _ _) fun _ h₁ => h₁.enqueue
  | tryAcquire ho => exact ho.fifo (hcall _ _ _) fun _ h₁ => h₁.logged quiet_replyOf
  | release ho => exact ho.fifo (hcall _ _ _)
  | startSession ho =>
    cases ho with
    | refused hl => exact (hcall _ _ _).logged quiet_replyOf
    | started hl =>
      refine Leader.Fifo.logged ?_ quiet_replyOf
      exact hcall _ _ _
  | fileReopen =>
    refine Leader.Fifo.logged ?_ quiet_replyOf
    exact hcall _ _ _
  | @disconnect s _ ho =>
    cases ho with
    | left hall =>
      have hstart : ((st.logged [.disconnected s]).touchFds s).Fifo :=
        hf.logged (by simp [Action.quiet])
      have hleft := hall.fifo hstart rfl
      exact hleft
  | initializeLeader ho =>
    cases ho with
    | @initialized files db hdb =>
      unfold Leader.Fifo
      obtain ⟨hqueue, hlog⟩ :=
        Leader.recovered_queue files ((st.logged [.initialized]).cleared.setDb db)
      rw [hqueue, hlog]
      refine ⟨fun f => ?_, fun f => ?_, hf.answered.append trivial, fun f s x => ?_⟩
      · simp only [Leader.setDb_log, Leader.cleared_log, Leader.logged_log, popped_initialized,
          pushed_initialized]
        exact List.Sublist.refl _
      · simp
      · have htotal := hf.total f s x
        have hnil : (default : List (SessionId × Xid)).count (s, x) = 0 := rfl
        simp only [Leader.setDb_log, Leader.cleared_log, Leader.logged_log, List.count_append,
          Leader.setDb_file2lockQueueMap, Leader.cleared_file2lockQueueMap, UMap.get_empty, hnil,
          List.count_singleton, beq_iff_eq, reduceCtorEq, if_false]
        omega

end Handlers

/-- In every state the leader can reach, over any database and any inputs: for
    each file the entries popped since the last initialisation are a subsequence
    of the entries pushed, what waits being pushed after them; each popped entry
    was answered at once; and no stored queue is empty. -/
theorem queueHistory_reachable (E : Service δ) (db : δ) (masterSequenceNumber : UInt64)
    (st : Leader δ) (h : (E.leader db masterSequenceNumber).Reach (fun _ _ => True) st) :
    QueueHistory st.file2lockQueueMap st.log := by
  refine h.invariant (I := Leader.Fifo) ?_ ?_
  · rintro st rfl
    exact QueueHistory.empty
  · intro st st' input _ hf _ hstep
    exact (step_ends E hstep).fifo hf

theorem queueHistory_contention :
    ∃ st, ((Service.paxos .refusing (fun _ => 0) inlineNamed).leader .empty 0).exec
      (fun _ _ => True) contention
      (.fresh .empty 0) = some st ∧ QueueHistory st.file2lockQueueMap st.log := by
  have hrun :
      (((Service.paxos .refusing (fun _ => 0) inlineNamed).leader .empty 0).exec (fun _ _ => True)
      contention (.fresh .empty 0)).isSome = true := by decide
  obtain ⟨st, hst⟩ := Option.isSome_iff_exists.mp hrun
  have hreach := Lts.Reach.exec (.init rfl) hst
  exact ⟨st, hst, queueHistory_reachable _ _ _ st hreach⟩

end SimpleChubby
