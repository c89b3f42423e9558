import SimpleChubby.Client.Requests

/-!
# A request across a reconnection

`connect_server_and_recover` knows of the request under way only what
`store_bkup_before_call` and `store_bkup_after_call` have noted, under another
lock than the one that is held from the write of the request to its reply. When
the note says what is owed to the new connection, each request is written there
once. It does not when recovery finds a call other than `acquire` waiting, or an
`acquire` that has not been written yet, or one whose reply is already there.
-/

namespace SimpleChubby

namespace Client

/-- Once recovery is over, a request that waits for its reply has been written to
    the current connection once, and one that is still to be written has not been
    written anywhere; a request whose reply has been put into `reply_queue_` is not
    written to a later connection; and no `invoke` throws on a foreign reply. -/
structure OnceEach (s : State) : Prop where
  outstanding : s.poll = .polling → ∀ t c, s.rpclk = some (t, .waiting c) →
    (∀ a ∈ s.replyQueue, a.serial ≠ c.serial) → s.written.count (s.conn, c) = 1
  toWrite : ∀ t p, s.rpclk = some (t, p) → p.unwritten = true → ∀ n, (n, p.call) ∉ s.written
  answered : ∀ d ∈ s.delivered, ∀ w ∈ s.written, w.2.serial = d.2.serial → w.1 ≤ d.1
  expected : ∀ c a, .unexpectedXid c a ∉ s.done

theorem Core.Ok.onceEach {s : State} (h : s.core.Ok) : OnceEach s where
  outstanding hpoll t c hlock hno := by
    have hholder := State.holder_eq hlock
    have hmem : (s.conn, c) ∈ s.written := h.ready (decide_eq_true hpoll) c hholder hno
    exact Nat.le_antisymm (h.once c hholder) (List.count_pos_iff.mpr hmem)
  toWrite _ p hlock hnew := h.unwritten p (State.holder_eq hlock) hnew
  answered := h.last
  expected _ _ hmem := h.ended _ hmem

/-- In every run in which recovery finds the backup to be that of the request that
    is owed, requests survive reconnections exactly once. -/
theorem onceEach_reachable (s : State) (h : chubbyClient.Reach Backed s) : OnceEach s := by
  have hok : s.core.Ok := by
    refine h.invariant (I := fun s => s.core.Ok) ?_ ?_
    · rintro s ⟨id, xidCounter, rfl⟩
      exact fresh_ok id xidCounter
    · intro s s' l _ hok hbacked hstep
      exact step_ok hok hbacked hstep
  exact hok.onceEach

/-- The connection is lost and found again. -/
def reconnects : List Label :=
  [.lose, .pollRecvCb, .connect, .startSession true, .answer 0 true (some (.bool true)),
    .sessionStarted, .lockBkup]

/-- An `acquire` waits while the connection is lost, and has its reply on the next one. -/
def acquiresAcross : List Label :=
  [.prepare 1 (.acquire ⟨0, 0, ['/', 'f'], 1, false⟩), .storeBefore, .write true] ++ reconnects ++
    [.writeBkup true, .answer 0 true (some (.bool true)), .pollRecvCb, .receive, .unpack,
      .storeAfter]

theorem onceEach_acquiresAcross :
    ∃ s, chubbyClient.exec Backed acquiresAcross (.fresh ['7'] 1) = some s ∧
      s.written.length = 3 ∧ s.done.length = 1 ∧ OnceEach s := by
  have hrun : ∃ s, chubbyClient.exec Backed acquiresAcross (.fresh ['7'] 1) = some s ∧
      s.written.length = 3 ∧ s.done.length = 1 := ⟨_, rfl, rfl, rfl⟩
  obtain ⟨s, hs, hwritten, hdone⟩ := hrun
  have hstart : chubbyClient.init (.fresh ['7'] 1) := ⟨_, _, rfl⟩
  exact ⟨s, hs, hwritten, hdone, onceEach_reachable s (Lts.Reach.exec (.init hstart) hs)⟩

/-- A call other than `acquire` waits while the connection is lost. -/
def readsAcross : List Label :=
  [.prepare 1 (.getContentsAndStat ⟨0, 0, ['/', 'f'], 1, false⟩), .storeBefore, .write true] ++
    reconnects ++ [.writeBkup true]

/-- Not every request survives: nobody writes that of another call again. -/
theorem not_onceEach :
    ¬ ∀ s, chubbyClient.Reach (fun _ _ => True) s → OnceEach s := by
  intro hall
  have hrun : ∃ s c, chubbyClient.exec (fun _ _ => True) readsAcross (.fresh ['7'] 1) = some s ∧
      s.poll = .polling ∧ s.rpclk = some (1, .waiting c) ∧ s.replyQueue = [] ∧
        s.written.count (s.conn, c) = 0 := ⟨_, _, rfl, rfl, rfl, rfl, rfl⟩
  obtain ⟨s, c, hs, hpoll, hlock, hqueue, hnone⟩ := hrun
  have hstart : chubbyClient.init (.fresh ['7'] 1) := ⟨_, _, rfl⟩
  have honce := (hall s (Lts.Reach.exec (.init hstart) hs)).outstanding hpoll 1 c hlock
    (fun a ha => by rw [hqueue] at ha; cases ha)
  rw [hnone] at honce
  cases honce

end Client

end SimpleChubby
