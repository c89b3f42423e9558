import SimpleChubby.Leader.Replies

/-!
# To whom the handlers send

The leader replies to the session it serves and to the waiters it hands a lock
to, and it sends events to the sessions registered for them. So if these are
all in a set `R` of sessions, then whatever a handler sends goes to `R`, also
when the handler does not return.
-/

namespace SimpleChubby

/-- The session that gets a reply or an event. -/
def Action.recipient : Action → Option SessionId
  | .reply session _ _ => some session
  | .event session _ _ => some session
  | _ => none

/-- A segment in which everything is sent to sessions of `P`. -/
def SentTo (P : SessionId → Prop) (l : List Action) : Prop := ∀ a ∈ l, ∀ s ∈ a.recipient, P s

section Segments

variable {P Q : SessionId → Prop} {l l' : List Action} {session : SessionId} {xid : Xid}

theorem SentTo.nil : SentTo P [] := fun _ ha => absurd ha List.not_mem_nil

theorem SentTo.append (h : SentTo P l) (h' : SentTo P l') : SentTo P (l ++ l') := by
  intro a ha
  rcases List.mem_append.mp ha with ha | ha
  · exact h a ha
  · exact h' a ha

theorem SentTo.and (h : SentTo P l) (h' : SentTo Q l) : SentTo (fun s => P s ∧ Q s) l :=
  fun a ha s hs => ⟨h a ha s hs, h' a ha s hs⟩

theorem SentTo.mono (h : SentTo P l) (hPQ : ∀ s, P s → Q s) : SentTo Q l :=
  fun a ha s hs => hPQ s (h a ha s hs)

/-- An action that is not sent. -/
theorem SentTo.unsent {a : Action} (ha : a.recipient = none) : SentTo P [a] := by
  intro b hb s hs
  rw [List.mem_singleton.mp hb, ha] at hs
  cases hs

theorem SentTo.replyOf {body : Reply} (h : xid ≠ internalXid → P session) :
    SentTo P (Leader.replyOf session xid body) := by
  intro a ha s hs
  rw [Leader.replyOf] at ha
  split_ifs at ha with hx
  · cases ha
  · rw [List.mem_singleton.mp ha] at hs
    obtain rfl := Option.some.inj hs
    exact h hx

theorem SentTo.events {sessions : List SessionId} {e : ChubbyEvent} {fileName : Str}
    (h : ∀ s ∈ sessions, P s) : SentTo P (sessions.map (.event · e fileName)) := by
  intro a ha s hs
  obtain ⟨w, hw, rfl⟩ := List.mem_map.mp ha
  obtain rfl := Option.some.inj hs
  exact h w hw

end Segments

/-! ## The sessions the leader knows of -/

/-- The sessions with a client, and the sessions registered for events, are in `R`. -/
structure Acquainted (R : SessionId → Prop) (clients : UMap SessionId Str)
    (lockChange contentChange : UMap Str (List SessionId)) : Prop where
  client : ∀ s, clients.get s ≠ [] → R s
  lock : ∀ f, ∀ s ∈ lockChange.get f, R s
  content : ∀ f, ∀ s ∈ contentChange.get f, R s

variable {δ : Type}

/-- Every session the leader can send to, besides the one it serves, is in `R`. -/
abbrev Leader.Known (R : SessionId → Prop) (st : Leader δ) : Prop :=
  Acquainted R st.session2clientMap st.file2lockChangeMap st.file2contentChangeMap

/-- `st'` has the log of `st` and a segment that is sent to `P`. -/
abbrev Leader.Tells (P : SessionId → Prop) (st st' : Leader δ) : Prop :=
  Leader.Adds (SentTo P) st st'

section Known

variable {R R' : SessionId → Prop} {st st₁ st' : Leader δ} {session : SessionId} {fileName : Str}

theorem Leader.Known.mono (h : st.Known R) (hR : ∀ s, R s → R' s) : st.Known R' where
  client s hs := hR s (h.client s hs)
  lock f s hs := hR s (h.lock f s hs)
  content f s hs := hR s (h.content f s hs)

theorem Leader.Known.touchClient (h : st.Known R) : (st.touchClient session).Known R where
  client s hs := by
    rw [Leader.touchClient_session2clientMap, UMap.get_touch] at hs
    exact h.client s hs
  lock := h.lock
  content := h.content

theorem Leader.Known.subscribed {mode : Mode} (h : st.Known R) (hs : R session) :
    (st.subscribed session fileName mode).Known R := by
  have halter : ∀ {m : UMap Str (List SessionId)}, (∀ f, ∀ s ∈ m.get f, R s) →
      ∀ f, ∀ s ∈ (m.alter fileName (· ++ [session])).get f, R s := by
    intro m hm f s hmem
    rw [UMap.get_alter] at hmem
    split_ifs at hmem with hf
    · rcases List.mem_append.mp hmem with hmem | hmem
      · exact hm fileName s hmem
      · rw [List.mem_singleton.mp hmem]
        exact hs
    · exact hm f s hmem
  refine ⟨h.client, ?_, ?_⟩
  · rw [Leader.subscribed_file2lockChangeMap]
    split_ifs
    · exact halter h.lock
    · exact h.lock
  · rw [Leader.subscribed_file2contentChangeMap]
    split_ifs
    · exact halter h.content
    · exact h.content

theorem Leader.Known.dropEvents (h : st.Known R) : (st.dropEvents fileName).Known R := by
  have herase : ∀ {m : UMap Str (List SessionId)}, (∀ f, ∀ s ∈ m.get f, R s) →
      ∀ f, ∀ s ∈ (m.erase fileName).get f, R s := by
    intro m hm f s hmem
    rw [UMap.get_erase] at hmem
    split_ifs at hmem with hf
    · cases hmem
    · exact hm f s hmem
  exact ⟨h.client, herase h.lock, herase h.content⟩

/-- The event list of a file after a session has been removed. -/
theorem get_unsubscribe {m : UMap Str (List SessionId)} {f : Str} :
    (unsubscribe m session fileName).get f =
      if f = fileName then (m.get f).filter (· != session) else m.get f := by
  unfold unsubscribe
  split_ifs with hhas hf hf
  · rw [UMap.get_eraseIf _ _ _ fun l hl => List.isEmpty_iff.mp hl, UMap.get_alter, if_pos hf, hf]
  · rw [UMap.get_eraseIf _ _ _ fun l hl => List.isEmpty_iff.mp hl, UMap.get_alter, if_neg hf]
  · rw [hf, UMap.get_of_find_none (UMap.has_eq_false.mp (Bool.eq_false_iff.mpr hhas))]
    rfl
  · rfl

/-- Who is registered for the events of a file after a session has been removed. -/
theorem mem_unsubscribe {m : UMap Str (List SessionId)} {s : SessionId} {f : Str} :
    s ∈ (unsubscribe m session fileName).get f ↔
      s ∈ m.get f ∧ ¬ (s = session ∧ f = fileName) := by
  rw [get_unsubscribe]
  split_ifs with hf
  · simp [hf]
  · simp [hf]

theorem Leader.Known.unsubscribed (h : st.Known R) :
    (st.unsubscribed session fileName).Known R where
  client := h.client
  lock f s hs := h.lock f s (mem_unsubscribe.mp hs).1
  content f s hs := h.content f s (mem_unsubscribe.mp hs).1

theorem Leader.Tells.refl (st : Leader δ) : st.Tells R st :=
  ⟨[], .nil, (List.append_nil _).symm⟩

theorem Leader.Tells.trans (h : st.Tells R st₁) (h' : st₁.Tells R st') : st.Tells R st' :=
  Leader.Adds.append h h' fun _ _ hl hl' => hl.append hl'

theorem Leader.Tells.mono (h : st.Tells R st') (hR : ∀ s, R s → R' s) : st.Tells R' st' :=
  Leader.Adds.imp h fun _ hl => hl.mono hR

theorem Leader.Tells.and (h : st.Tells R st') (h' : st.Tells R' st') :
    st.Tells (fun s => R s ∧ R' s) st' := by
  obtain ⟨l, hl, hlog⟩ := h
  obtain ⟨l', hl', hlog'⟩ := h'
  obtain rfl := List.append_cancel_left (hlog.symm.trans hlog')
  exact ⟨l, hl.and hl', hlog⟩

theorem Leader.Tells.of_log (h : st'.log = st.log) : st.Tells R st' :=
  ⟨[], .nil, by rw [h, List.append_nil]⟩

theorem Leader.Tells.logged {l : List Action} (h : SentTo R l) : st.Tells R (st.logged l) :=
  ⟨l, h, rfl⟩

end Known

/-! ## The helpers of the handlers -/

section Helpers

variable {R : SessionId → Prop} {α β : Type} {session : SessionId} {xid : Xid} {fileName : Str}

/-- A program that sends to `R` only, from a state that knows of `R` only. -/
abbrev Discreet (R : SessionId → Prop) (m : Api δ α) : Prop :=
  Prog.Guards (Leader.Known R) (Leader.Tells R) m

namespace Discreet

theorem bind {m : Api δ α} {f : α → Api δ β} (hm : Discreet R m) (hf : ∀ a, Discreet R (f a)) :
    Discreet R (m >>= f) :=
  Prog.Guards.bind (fun _ _ _ h h' => h.trans h') hm hf

theorem pure (a : α) : Discreet R (Pure.pure a : Api δ α) := Prog.Guards.pure .refl a

theorem gets (f : Leader δ → α) : Discreet R (Prog.gets f : Api δ α) := Prog.Guards.gets .refl f

theorem halt (e : Stop) : Discreet R (Prog.halt e : Api δ α) := Prog.Guards.halt .refl e

/-- A change of the state that sends nothing. -/
theorem silent {f : Leader δ → Leader δ} (hlog : ∀ st, (f st).log = st.log)
    (h : ∀ st, st.Known R → (f st).Known R) : Discreet R (Prog.modify f : Api δ Unit) :=
  Prog.Guards.modify fun st hst => ⟨h st hst, .of_log (hlog st)⟩

theorem check (c : Bool) (site : Assertion) : Discreet R (check c site : Api δ Unit) := by
  unfold SimpleChubby.check
  exact Prog.Guards.ite (pure ()) (halt _)

theorem record {a : Action} (ha : a.recipient = none) : Discreet R (record a : Api δ Unit) :=
  Prog.Guards.modify fun _ hst => ⟨hst, .logged (.unsent ha)⟩

theorem reply (hs : R session) (body : Reply) :
    Discreet R (reply session xid body : Api δ Unit) :=
  Prog.Guards.modify fun _ hst => ⟨hst, .logged (.replyOf fun _ => hs)⟩

theorem clientOf : Discreet R (clientOf session : Api δ Str) :=
  bind (silent (fun _ => rfl) fun _ h => h.touchClient) fun _ => gets _

theorem addFd (fd : FileHandler) : Discreet R (addFd session fd : Api δ Unit) :=
  silent (fun _ => rfl) fun _ h => h

theorem findFd (fd : FileHandler) : Discreet R (findFd session fd : Api δ (Option FdRecord)) := by
  unfold SimpleChubby.findFd
  refine bind (silent (fun _ => rfl) fun _ h => h) fun _ => bind (gets _) fun l => ?_
  cases l.find? (sameFd fd) with
  | some p => exact pure _
  | none => exact bind (gets _) fun _ => bind (addFd fd) fun _ => pure _

theorem callDb (op : Prog Fault δ α) : Discreet R (callDb op) := by
  intro st hst
  refine wp_callDb (fun a db _ => ?_) (fun db _ => ?_) (fun db _ => ?_)
  · exact ⟨hst, .of_log rfl⟩
  · exact ⟨hst, .of_log rfl⟩
  · exact .of_log rfl

theorem sendLockChangeEvent : Discreet R (sendLockChangeEvent fileName : Api δ Unit) :=
  Prog.Guards.modify fun _ hst => ⟨hst, .logged (.events (hst.lock fileName))⟩

theorem sendContentChangeEvent : Discreet R (sendContentChangeEvent fileName : Api δ Unit) :=
  Prog.Guards.modify fun _ hst => ⟨hst, .logged (.events (hst.content fileName))⟩

theorem sendParentEvent : Discreet R (sendParentEvent fileName : Api δ Unit) := by
  unfold SimpleChubby.sendParentEvent
  exact Prog.Guards.ite (pure ()) sendContentChangeEvent

/-- The waiter that gets the lock has a client, or the hand-off stops. -/
theorem handOff : Discreet R (handOff fileName : Api δ Unit) := by
  intro st hst
  unfold SimpleChubby.handOff
  simp only [Prog.wp_bind, Prog.wp_gets]
  cases hq : st.queue fileName with
  | none => exact ⟨hst, .refl st⟩
  | some queue =>
    cases queue with
    | nil => exact .refl st
    | cons waiter rest =>
      obtain ⟨w, x⟩ := waiter
      have hclient : (st.dequeue fileName w x rest).client w = st.client w := rfl
      have hpop : st.Tells R (st.dequeue fileName w x rest) := ⟨_, .unsent rfl, rfl⟩
      simp only [Prog.wp_bind, Prog.wp_modify, wp_clientOf, wp_check, wp_reply, hclient]
      by_cases hc : st.client w = []
      · simp only [hc, ne_eq, not_true_eq_false, decide_false, Bool.false_eq_true, if_false]
        exact hpop
      · simp only [hc, ne_eq, not_false_eq_true, decide_true, if_true, Prog.wp_ite,
          Prog.wp_modify, Prog.wp_pure]
        have hw : R w := hst.client w hc
        have hpopped : (st.dequeue fileName w x rest).Known R := hst
        have hknown : ((st.dequeue fileName w x rest).touchClient w).Known R :=
          hpopped.touchClient
        have htells : st.Tells R (st.granted w x fileName rest) :=
          hpop.trans ⟨_, .replyOf fun _ => hw, rfl⟩
        split_ifs
        · exact ⟨hknown, htells.trans (.of_log rfl)⟩
        · exact ⟨hknown, htells⟩

end Discreet

end Helpers

/-! ## The handlers -/

section Handlers

variable (E : Service δ) {R : SessionId → Prop} {session : SessionId} (xid : Xid) (fd : FileHandler)

namespace Discreet

theorem finishOpen (hs : R session) (fileName : Str) (mode : Mode) (n : UInt64) :
    Discreet R (finishOpen E fileName mode n session xid) := by
  unfold SimpleChubby.finishOpen
  refine bind (gets _) fun _ => bind (addFd _) fun _ => ?_
  refine bind (silent (fun _ => rfl) fun _ h => h.subscribed hs) fun _ => ?_
  exact bind (reply hs _) fun _ => sendParentEvent

theorem fileOpen (hs : R session) (fileName : Str) (mode : Mode) :
    Discreet R (fileOpen E fileName mode session xid) := by
  unfold SimpleChubby.fileOpen
  refine bind clientOf fun clientId => bind (check _ _) fun _ => ?_
  refine Prog.Guards.ite (reply hs _) (Prog.Guards.ite (reply hs _) (Prog.Guards.ite ?_ ?_))
  · refine bind (callDb _) fun r => ?_
    rcases r with _ | _ | n
    · exact reply hs _
    · exact reply hs _
    · exact bind (silent (fun _ => rfl) fun _ h => h) fun _ => finishOpen E xid hs _ _ _
  · refine bind (callDb _) fun r => ?_
    rcases r with _ | _ | n
    · exact reply hs _
    · exact reply hs _
    · exact finishOpen E xid hs _ _ _

theorem finishDelete (hs : R session) (fd : FdRecord) (clientId : Str) :
    Discreet R (finishDelete E fd clientId session xid) := by
  unfold SimpleChubby.finishDelete
  refine bind (silent (fun _ => rfl) fun _ h => h) fun _ => bind (gets _) fun _ => ?_
  refine bind (silent (fun _ => rfl) fun _ h => h) fun _ => bind (check _ _) fun _ => ?_
  refine bind (silent (fun _ => rfl) fun _ h => h) fun _ => ?_
  refine bind (silent (fun _ => rfl) fun _ h => h) fun _ => bind (reply hs _) fun _ => ?_
  refine bind sendContentChangeEvent fun _ => bind sendParentEvent fun _ => ?_
  exact silent (fun _ => rfl) fun _ h => h.dropEvents

theorem fileDelete (hs : R session) : Discreet R (fileDelete E fd session xid) := by
  unfold SimpleChubby.fileDelete
  refine bind clientOf fun clientId => bind (check _ _) fun _ => bind (findFd _) fun r => ?_
  cases r with
  | none => exact bind (reply hs _) fun _ => pure _
  | some p =>
    refine bind (callDb _) fun r => ?_
    rcases r with _ | _ | _
    · exact Prog.Guards.ite (bind (reply hs _) fun _ => pure _) (pure _)
    · exact bind (reply hs _) fun _ => pure _
    · exact bind (finishDelete E xid hs _ _) fun _ => pure _

theorem getContentsAndStat (hs : R session) :
    Discreet R (getContentsAndStat E fd session xid) := by
  unfold SimpleChubby.getContentsAndStat
  refine bind (findFd _) fun r => ?_
  cases r with
  | none => exact reply hs _
  | some p =>
    refine bind (callDb _) fun r => ?_
    rcases r with _ | _ | ⟨content, metaData⟩
    · exact reply hs _
    · exact reply hs _
    · exact reply hs _

theorem setContents (hs : R session) (content : Str) :
    Discreet R (setContents E fd content session xid) := by
  unfold SimpleChubby.setContents
  refine bind (findFd _) fun r => ?_
  cases r with
  | none => exact reply hs _
  | some p =>
    refine bind (callDb _) fun r => ?_
    rcases r with _ | _ | _
    · exact reply hs _
    · exact reply hs _
    · exact bind (reply hs _) fun _ => sendContentChangeEvent

theorem finishAcquire (hs : R session) (fileName clientId : Str) :
    Discreet R (finishAcquire fileName clientId session xid : Api δ Unit) := by
  unfold SimpleChubby.finishAcquire
  refine bind (gets _) fun _ => bind (check _ _) fun _ => ?_
  refine bind (silent (fun _ => rfl) fun _ h => h) fun _ => bind (reply hs _) fun _ => ?_
  exact sendLockChangeEvent

theorem acquire (hs : R session) : Discreet R (acquire E fd session xid) := by
  unfold SimpleChubby.acquire
  refine bind clientOf fun clientId => bind (check _ _) fun _ => bind (findFd _) fun r => ?_
  cases r with
  | none => exact reply hs _
  | some p =>
    refine bind (callDb _) fun r => ?_
    rcases r with _ | _ | _
    · exact reply hs _
    · exact Prog.Guards.modify fun st hst => ⟨hst, _, .unsent rfl, rfl⟩
    · exact finishAcquire xid hs _ _

theorem tryAcquire (hs : R session) : Discreet R (tryAcquire E fd session xid) := by
  unfold SimpleChubby.tryAcquire
  refine bind clientOf fun clientId => bind (check _ _) fun _ => bind (findFd _) fun r => ?_
  cases r with
  | none => exact reply hs _
  | some p =>
    refine bind (callDb _) fun r => ?_
    rcases r with _ | _ | _
    · exact reply hs _
    · exact reply hs _
    · exact finishAcquire xid hs _ _

theorem release (hs : R session) : Discreet R (release E fd session xid) := by
  unfold SimpleChubby.release
  refine bind clientOf fun clientId => bind (check _ _) fun _ => bind (findFd _) fun r => ?_
  cases r with
  | none => exact reply hs _
  | some p =>
    refine bind (callDb _) fun r => ?_
    rcases r with _ | _ | _
    · exact reply hs _
    · exact reply hs _
    · refine bind (silent (fun _ => rfl) fun _ h => h) fun _ => bind (reply hs _) fun _ => ?_
      exact bind handOff fun _ => sendLockChangeEvent

theorem finishClose (hs : R session) (p : FdRecord) :
    Discreet R (finishClose p session xid : Api δ Unit) := by
  unfold SimpleChubby.finishClose clearLockQueue
  refine bind (silent (fun _ => rfl) fun _ h => h) fun _ =>
    bind (bind (gets _) fun q => ?_) fun _ =>
    bind (silent (fun _ => rfl) fun _ h => h.unsubscribed) fun _ => reply hs _
  cases q with
  | none => exact pure ()
  | some queue =>
    cases hscan : scanQueue session queue with
    | none =>
      simp only [hscan]
      exact halt _
    | some copy =>
      simp only [hscan]
      exact Prog.Guards.ite (silent (fun _ => rfl) fun _ h => h) (pure ())

theorem closeReclaimed (hs : R session) (clientId : Str) (p : FdRecord) :
    Discreet R (closeReclaimed E session xid clientId fd p) := by
  refine bind (silent (fun _ => rfl) fun _ h => h) fun _ => bind (gets _) fun _ => ?_
  refine Prog.Guards.ite (bind (fileDelete E _ _ hs) fun r => ?_) (finishClose xid hs p)
  rcases r with ⟨⟨⟩⟩ | ⟨⟨⟩⟩
  · exact reply hs _
  · exact reply hs _

theorem fileClose (hs : R session) : Discreet R (fileClose E fd session xid) := by
  unfold SimpleChubby.fileClose
  refine bind clientOf fun clientId => bind (check _ _) fun _ => bind (findFd _) fun r => ?_
  cases r with
  | none => exact bind (check _ _) fun _ => reply hs _
  | some p =>
    have hrest : Discreet R (SimpleChubby.closeReclaimed E session xid clientId p.value p) :=
      closeReclaimed E xid p.value hs clientId p
    refine bind (gets _) fun _ => Prog.Guards.ite ?_ hrest
    exact bind (release E _ _ hs) fun _ => hrest

theorem startSession (hs : R session) (clientId : Str) :
    Discreet R (startSession E clientId session xid) := by
  unfold SimpleChubby.startSession
  refine bind (gets _) fun _ => Prog.Guards.ite (reply hs _) (bind ?_ fun _ => reply hs _)
  refine silent (fun _ => rfl) fun st h => ⟨fun s hc => ?_, h.lock, h.content⟩
  rw [Leader.started_session2clientMap, UMap.get_set] at hc
  split_ifs at hc with heq
  · rw [heq]
    exact hs
  · exact h.client s hc

theorem fileReopen (hs : R session) (mode : Mode) :
    Discreet R (fileReopen fd mode session xid : Api δ Unit) := by
  unfold SimpleChubby.fileReopen
  refine bind (addFd _) fun _ => ?_
  refine bind (silent (fun _ => rfl) fun _ h => h.subscribed hs) fun _ => bind clientOf fun _ => ?_
  exact bind (silent (fun _ => rfl) fun _ h => h) fun _ => reply hs _

/-- A call from a session of `R` is answered, and announced, to `R` only. -/
theorem rpc (hs : R session) (request : Request) :
    Discreet R (handle E (.rpc session xid request)) := by
  refine bind (record rfl) fun _ => ?_
  cases request with
  | fileOpen name mode => exact fileOpen E xid hs name mode
  | fileClose fd => exact fileClose E xid fd hs
  | fileDelete fd =>
    refine bind (fileDelete E xid fd hs) fun r => ?_
    rcases r with ⟨⟨⟩⟩ | ⟨⟨⟩⟩
    · exact halt _
    · exact pure ()
  | getContentsAndStat fd => exact getContentsAndStat E xid fd hs
  | setContents fd content => exact setContents E xid fd hs content
  | acquire fd => exact acquire E xid fd hs
  | tryAcquire fd => exact tryAcquire E xid fd hs
  | release fd => exact release E xid fd hs
  | startSession clientId => exact startSession E xid hs clientId
  | fileReopen fd mode => exact fileReopen xid fd hs mode

theorem initializeLeader : Discreet R (handle E .initializeLeader) := by
  refine bind (record rfl) fun _ => bind (silent (fun _ => rfl) fun st _ => ?_) fun _ => ?_
  · have hempty : ∀ f, ∀ s ∈ (UMap.empty : UMap Str (List SessionId)).get f, R s :=
      fun _ _ hs => absurd hs List.not_mem_nil
    exact ⟨fun s hc => absurd rfl hc, hempty, hempty⟩
  · refine bind (callDb _) fun r => ?_
    cases r with
    | none => exact halt _
    | some files =>
      refine Prog.Guards.forEach .refl (fun _ _ _ h h' => h.trans h') (fun p => ?_) files
      exact silent (fun _ => rfl) fun _ h => h

end Discreet

end Handlers

end SimpleChubby
