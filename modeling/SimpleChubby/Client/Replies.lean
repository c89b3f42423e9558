import SimpleChubby.Client.Requests

/-!
# Replies and events while the connection lasts

The poll thread splits what the server sends into replies and events. While the
connection stands, the one request that is under way finds its own reply in
`reply_queue_`, and the events leave `event_queue_` in the order they were sent.
-/

namespace SimpleChubby

namespace Client

section Statement

/-- The event of a message. -/
def Incoming.event : Incoming → Option Event
  | .reply _ => none
  | .call e => some e

/-- The events that have been handed to a callback. -/
def State.handed (s : State) : List Event := (s.taken.filter Prod.snd).map Prod.fst

/-- Every `invoke` that has returned had the reply to its own request, the queue
    of replies holds one at most, none was taken for another, and the events are
    handed over in the order they were sent, none left out for which there was a
    callback. -/
structure RepliesMatch (s : State) : Prop where
  own : ∀ c a, .returned c a ∈ s.done → a.serial = c.serial ∧ a.xid = c.xid
  single : s.replyQueue.length ≤ 1
  expected : ∀ c a, .unexpectedXid c a ∉ s.done
  events : s.taken.map Prod.fst ++ s.eventQueue ++ s.incoming.filterMap Incoming.event = s.sent
  inOrder : s.handed.Sublist s.sent

end Statement

section Steady

variable {s s' : State}

/-- The connection stands, no recovery is under way, and no event is missing. -/
structure State.Steady (s : State) : Prop where
  polling : s.poll = .polling
  alive : s.alive = true
  events : s.taken.map Prod.fst ++ s.eventQueue ++ s.incoming.filterMap Incoming.event = s.sent

/-- A step that leaves the poll thread, the connection and the events alone. -/
theorem State.Steady.same (h : s.Steady) (hpoll : s'.poll = s.poll) (halive : s'.alive = s.alive)
    (htaken : s'.taken = s.taken) (hqueue : s'.eventQueue = s.eventQueue)
    (hincoming : s'.incoming.filterMap Incoming.event = s.incoming.filterMap Incoming.event)
    (hsent : s'.sent = s.sent) : s'.Steady where
  polling := hpoll.trans h.polling
  alive := halive.trans h.alive
  events := by
    rw [htaken, hqueue, hincoming, hsent]
    exact h.events

theorem State.Steady.pollRecvCb (h : s.Steady) (hstep : s.pollRecvCb = some s') : s'.Steady := by
  unfold State.pollRecvCb at hstep
  rw [if_neg (not_not.mpr h.polling)] at hstep
  split at hstep
  · next a rest hincoming =>
    cases hstep
    exact h.same rfl rfl rfl rfl (by rw [hincoming]; rfl) rfl
  · next e rest hincoming =>
    cases hstep
    refine ⟨h.polling, h.alive, ?_⟩
    have hevents := h.events
    rw [hincoming] at hevents
    rw [← hevents, ← List.append_assoc, List.append_assoc]
    rfl
  · rw [if_pos h.alive] at hstep
    cases hstep

theorem State.Steady.takeEvent (h : s.Steady) (hstep : s.takeEvent = some s') : s'.Steady := by
  unfold State.takeEvent at hstep
  split at hstep
  · next e rest hqueue =>
    split at hstep
    · cases hstep
    · cases hstep
      refine ⟨h.polling, h.alive, ?_⟩
      have hevents := h.events
      rw [hqueue] at hevents
      rw [← hevents, List.map_append, List.append_assoc]
      simp
  · cases hstep

theorem State.Steady.write (h : s.Steady) {ok : Bool} (hstep : s.write ok = some s') :
    s'.Steady := by
  unfold State.write at hstep
  split at hstep
  · split at hstep
    · cases hstep
      exact h.same rfl rfl rfl rfl rfl rfl
    · cases hstep
      exact h.same rfl rfl rfl rfl rfl rfl
  · cases hstep

theorem State.Steady.unpack (h : s.Steady) (hstep : s.unpack = some s') : s'.Steady := by
  unfold State.unpack at hstep
  split at hstep
  · split_ifs at hstep
    · cases hstep
      exact h.same rfl rfl rfl rfl rfl rfl
    · split at hstep
      · cases hstep
        exact h.same rfl rfl rfl rfl rfl rfl
      · cases hstep
        exact h.same rfl rfl rfl rfl rfl rfl
    · cases hstep
      exact h.same rfl rfl rfl rfl rfl rfl
  · cases hstep

/-- No step but the loss of the connection ends the peace. -/
theorem State.Steady.step (h : s.Steady) {l : Label} (hl : l ≠ .lose)
    (hstep : Client.step l s = some s') : s'.Steady := by
  unfold Client.step at hstep
  rw [if_neg (by rw [h.polling]; simp)] at hstep
  cases l with
  | prepare t r =>
    simp only [State.prepare] at hstep
    split_ifs at hstep
    cases hstep
    exact h.same rfl rfl rfl rfl rfl rfl
  | storeBefore =>
    simp only [State.storeBkupBeforeCall] at hstep
    split at hstep
    · split at hstep
      · split_ifs at hstep
        cases hstep
        exact h.same rfl rfl rfl rfl rfl rfl
      · cases hstep
        exact h.same rfl rfl rfl rfl rfl rfl
    · cases hstep
  | write ok => exact h.write hstep
  | receive =>
    simp only [State.receive] at hstep
    split at hstep
    · cases hstep
      exact h.same rfl rfl rfl rfl rfl rfl
    · cases hstep
  | unpack => exact h.unpack hstep
  | storeAfter =>
    simp only [State.storeBkupAfterCall] at hstep
    split at hstep
    · split_ifs at hstep
      cases hstep
      exact h.same rfl rfl rfl rfl rfl rfl
    · cases hstep
  | pollRecvCb => exact h.pollRecvCb hstep
  | connect => simp [State.connect, h.polling] at hstep
  | startSession ok => simp [State.startSession, h.polling] at hstep
  | sessionStarted => simp [State.sessionStarted, h.polling] at hstep
  | lockBkup => simp [State.lockBkup, h.polling] at hstep
  | fileReopen ok => simp [State.fileReopen, h.polling] at hstep
  | fileReopened => simp [State.fileReopened, h.polling] at hstep
  | writeBkup ok => simp [State.writeBkup, h.polling] at hstep
  | takeEvent => exact h.takeEvent hstep
  | callbackReturns =>
    simp only [State.callbackReturns] at hstep
    split at hstep
    · cases hstep
    · cases hstep
      exact h.same rfl rfl rfl rfl rfl rfl
    · cases hstep
  | registerCallback e present =>
    cases hstep
    exact h.same rfl rfl rfl rfl rfl rfl
  | answer i accepted result =>
    obtain ⟨call, _, rfl⟩ := Option.map_eq_some_iff.mp hstep
    refine h.same rfl rfl rfl rfl ?_ rfl
    rw [List.filterMap_append]
    exact List.append_nil _
  | sendEvent e =>
    simp only [State.sendEvent] at hstep
    split_ifs at hstep
    cases hstep
    refine ⟨h.polling, h.alive, ?_⟩
    dsimp only
    rw [← h.events, List.filterMap_append]
    simp [Incoming.event]
  | lose => exact absurd rfl hl

/-- While no recovery is under way, what recovery has to mind is no concern. -/
theorem State.Steady.backed (h : s.Steady) {l : Label} (hstep : Client.step l s = some s') :
    Backed s l := by
  have hcall : s.poll.call = none := by rw [h.polling]; rfl
  unfold Client.step at hstep
  rw [if_neg (by rw [h.polling]; simp)] at hstep
  cases l with
  | prepare t r =>
    simp only [State.prepare] at hstep
    split_ifs at hstep with hlock _
    have hnone : s.rpclk = none := by simpa using hlock
    intro c hc
    simp [State.underWay, hnone, hcall] at hc
  | startSession ok => simp [State.startSession, h.polling] at hstep
  | fileReopen ok => simp [State.fileReopen, h.polling] at hstep
  | writeBkup ok => simp [State.writeBkup, h.polling] at hstep
  | _ => trivial

/-- The queue of replies holds the reply of the one call that waits. -/
theorem Core.Ok.single {k : Core} (h : k.Ok) : k.queue.length ≤ 1 := by
  have hnodup : (k.queue.map Answer.serial).Nodup :=
    Multiset.coe_nodup.mp (Multiset.nodup_add.mp h.nodup).2.1
  rcases hqueue : k.queue with _ | ⟨a, _ | ⟨b, rest⟩⟩
  · exact Nat.zero_le 1
  · exact Nat.le_refl 1
  · obtain ⟨c, hc, ha⟩ := h.queued a (hqueue ▸ List.mem_cons_self)
    obtain ⟨c', hc', hb⟩ :=
      h.queued b (hqueue ▸ List.mem_cons_of_mem _ List.mem_cons_self)
    rw [hc] at hc'
    cases hc'
    have hserial : a.serial = b.serial := congrArg Prod.fst (ha.trans hb.symm)
    rw [hqueue] at hnodup
    simp [hserial] at hnodup

theorem State.Steady.inOrder (h : s.Steady) : s.handed.Sublist s.sent := by
  rw [← h.events, List.append_assoc]
  exact ((List.filter_sublist).map _).trans (List.sublist_append_left _ _)

end Steady

/-- In every run of a client whose connection lasts, replies and requests match and
    the events are handed over in order. -/
theorem repliesMatch_reachable (s : State)
    (h : chubbyClient.Reach (fun _ l => l ≠ .lose) s) : RepliesMatch s := by
  have hinv : s.core.Ok ∧ s.Steady := by
    refine h.invariant (I := fun s => s.core.Ok ∧ s.Steady) ?_ ?_
    · rintro s ⟨id, xidCounter, rfl⟩
      exact ⟨fresh_ok id xidCounter, rfl, rfl, rfl⟩
    · rintro s s' l _ ⟨hok, hsteady⟩ hl hstep
      exact ⟨step_ok hok (hsteady.backed hstep) hstep, hsteady.step hl hstep⟩
  obtain ⟨hok, hsteady⟩ := hinv
  refine ⟨fun c a hmem => ?_, hok.single, fun c a hmem => hok.ended _ hmem, hsteady.events,
    hsteady.inOrder⟩
  have hids : a.ids = c.ids := hok.ended _ hmem
  exact ⟨congrArg Prod.fst hids, congrArg Prod.snd hids⟩

/-- One thread waits for a lock while an event comes in, whose callback makes a
    call of its own once the first call has its reply. -/
def callsBack : List Label :=
  [.registerCallback .lockChanged true, .prepare 1 (.acquire ⟨0, 0, ['/', 'f'], 1, false⟩),
    .storeBefore, .write true, .sendEvent ⟨.lockChanged, ['/', 'f']⟩, .pollRecvCb, .takeEvent,
    .answer 0 true (some (.bool true)), .pollRecvCb, .receive, .unpack, .storeAfter,
    .prepare 0 (.release ⟨0, 0, ['/', 'f'], 1, false⟩), .storeBefore, .write true,
    .answer 0 true (some (.bool true)), .pollRecvCb, .receive, .unpack, .storeAfter,
    .callbackReturns]

theorem repliesMatch_callsBack :
    ∃ s, chubbyClient.exec (fun _ l => l ≠ .lose) callsBack (.fresh ['7'] 1) = some s ∧
      s.done.length = 2 ∧ s.handed = [⟨.lockChanged, ['/', 'f']⟩] ∧ RepliesMatch s := by
  have hrun : ∃ s, chubbyClient.exec (fun _ l => l ≠ .lose) callsBack (.fresh ['7'] 1) = some s ∧
      s.done.length = 2 ∧ s.handed = [⟨.lockChanged, ['/', 'f']⟩] := ⟨_, rfl, rfl, rfl⟩
  obtain ⟨s, hs, hdone, hhanded⟩ := hrun
  have hstart : chubbyClient.init (.fresh ['7'] 1) := ⟨_, _, rfl⟩
  exact ⟨s, hs, hdone, hhanded, repliesMatch_reachable s (Lts.Reach.exec (.init hstart) hs)⟩

end Client

end SimpleChubby
