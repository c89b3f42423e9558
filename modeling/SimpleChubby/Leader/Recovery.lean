import SimpleChubby.Leader.Spec
import SimpleChubby.ServerDb.Calls
import SimpleChubby.ServerDb.Locks

/-!
# A new leader

What `initializeLeader` reads from the back store and makes of it, and what a
client meets that sends its `acquire` again to a new leader. The list of nodes
comes back with every node in it twice, since the back store scans the table
twice into one vector; the rebuilt sets do not notice. The lock owner of a free
node is a name like any other to the loop that fills the sets, and to
`testAndSetLockOwner` a client that owns a lock is like any other owner.
-/

namespace SimpleChubby

open SqlText

/-! ## The recovered locks -/

/-- The nodes of a store with their lock owners. -/
def Store.owners (st : Store) : List (Str × Str) := st.fs.map fun row => (row.name, row.lockOwner)

/-- The sets of held locks are those of the store, and a free lock is in none. -/
structure HeldExact (st : Store) (held : UMap Str (Finset Str)) : Prop where
  sets : ∀ client name, client ≠ noOwner →
    (name ∈ held.get client ↔ (name, client) ∈ st.owners)
  clients : ∀ client, held.has client = true →
    client ≠ noOwner ∧ ∃ name, (name, client) ∈ st.owners
  free : ∀ name, (name, noOwner) ∈ st.owners → ∀ client, name ∉ held.get client

/-- The list read from the back store has every node once, and the sets of held
    locks are those of the store. -/
structure RecoveryExact (st : Store) (files : List (Str × Str))
    (held : UMap Str (Finset Str)) : Prop where
  listed : files.Perm st.owners
  held : HeldExact st held

section Recovered

variable {δ : Type} {client : Str} {name : Str}

theorem Leader.held_hold (st : Leader δ) (owner fileName : Str) :
    name ∈ (st.hold owner fileName).held client ↔
      name ∈ st.held client ∨ (name, client) = (fileName, owner) := by
  show name ∈ (st.client2heldLockMap.alter owner (insert fileName)).get client ↔ _
  rw [UMap.get_alter, Prod.mk.injEq]
  unfold Leader.held
  by_cases hc : client = owner
  · rw [if_pos hc, hc, Finset.mem_insert]
    simp only [and_true]
    exact or_comm
  · simp [hc]

theorem Leader.has_hold (st : Leader δ) (owner fileName : Str) :
    (st.hold owner fileName).client2heldLockMap.has client = true ↔
      st.client2heldLockMap.has client = true ∨ client = owner := by
  simp only [UMap.has_eq_true, Leader.hold_client2heldLockMap, UMap.find_alter]
  by_cases hc : client = owner <;> simp [hc]

/-- Every pair of the list is put into the sets, and nothing else is. -/
theorem Leader.held_recovered (files : List (Str × Str)) (st : Leader δ) :
    name ∈ (st.recovered files).held client ↔
      name ∈ st.held client ∨ (name, client) ∈ files := by
  induction files generalizing st with
  | nil => simp [Leader.recovered]
  | cons p rest ih =>
    have hstep : st.recovered (p :: rest) = (st.hold p.2 p.1).recovered rest := rfl
    rw [hstep, ih, Leader.held_hold, List.mem_cons, or_assoc]

theorem Leader.has_recovered (files : List (Str × Str)) (st : Leader δ) :
    (st.recovered files).client2heldLockMap.has client = true ↔
      st.client2heldLockMap.has client = true ∨ ∃ name, (name, client) ∈ files := by
  induction files generalizing st with
  | nil => simp [Leader.recovered]
  | cons p rest ih =>
    have hstep : st.recovered (p :: rest) = (st.hold p.2 p.1).recovered rest := rfl
    rw [hstep, ih, Leader.has_hold, or_assoc]
    refine or_congr Iff.rfl ⟨?_, ?_⟩
    · rintro (rfl | ⟨name, hname⟩)
      · exact ⟨p.1, List.mem_cons_self⟩
      · exact ⟨name, List.mem_cons_of_mem _ hname⟩
    · rintro ⟨name, hname⟩
      rcases List.mem_cons.mp hname with rfl | hname
      · exact Or.inl rfl
      · exact Or.inr ⟨name, hname⟩

theorem Leader.db_recovered (files : List (Str × Str)) (st : Leader δ) :
    (st.recovered files).db = st.db := by
  obtain ⟨held, hrecovered⟩ := st.recovered_eq files
  rw [hrecovered]

end Recovered

section Initialize

variable (sq : Engine) (strHash : Str → UInt64) (stillNamed : FdRecord → Bool)

/-- The list goes through the scan twice. -/
theorem leaderDb_getStates (st : Store) :
    (leaderDb sq strHash).getStates st = .ret (st.owners ++ st.owners) st := rfl

/-- A list that holds everything twice is no list of everything but that of nothing. -/
theorem perm_double_iff {α : Type} (l : List α) : (l ++ l).Perm l ↔ l = [] := by
  constructor
  · intro h
    have hlength := h.length_eq
    rw [List.length_append] at hlength
    exact List.eq_nil_of_length_eq_zero (by omega)
  · rintro rfl
    exact .refl _

/-- What `initializeLeader` leaves: the store as it was, and the sets filled
    with the pairs of the list. -/
theorem initializeLeader_paxos (before : Leader Store) :
    ∃ after, initializeLeader (Service.paxos sq strHash stillNamed) before = .ret () after ∧
      after.db = before.db ∧
      (∀ client name, name ∈ after.held client ↔ (name, client) ∈ before.db.owners) ∧
      ∀ client, after.client2heldLockMap.has client = true ↔
        ∃ name, (name, client) ∈ before.db.owners := by
  have hends := initializeLeader_ends (Service.paxos sq strHash stillNamed) before
  have hstates : (Service.paxos sq strHash stillNamed).db.getStates before.db =
      .ret (before.db.owners ++ before.db.owners) before.db := leaderDb_getStates sq strHash _
  generalize initializeLeader (Service.paxos sq strHash stillNamed) before = o at hends
  cases hends with
  | crashed hcon => rw [hstates] at hcon; cases hcon
  | threw hcon => rw [hstates] at hcon; cases hcon
  | @initialized files db hfiles =>
    rw [hstates] at hfiles
    cases hfiles
    refine ⟨_, rfl, Leader.db_recovered _ _, fun client name => ?_, fun client => ?_⟩
    · have hcleared : name ∉ (before.cleared.setDb before.db).held client := Finset.notMem_empty _
      rw [Leader.held_recovered, List.mem_append, or_self, or_iff_right hcleared]
    · rw [Leader.has_recovered]
      simp

/-- The recovered sets are those of the store if and only if no lock is free. -/
theorem heldExact_iff {st : Store} {held : UMap Str (Finset Str)}
    (hsets : ∀ client name, name ∈ held.get client ↔ (name, client) ∈ st.owners)
    (hclients : ∀ client, held.has client = true ↔ ∃ name, (name, client) ∈ st.owners) :
    HeldExact st held ↔ ∀ row ∈ st.fs, row.lockOwner ≠ noOwner := by
  constructor
  · rintro hexact row hrow hfree
    have howner : (row.name, noOwner) ∈ st.owners :=
      List.mem_map.mpr ⟨row, hrow, by rw [hfree]⟩
    exact (hexact.clients noOwner ((hclients noOwner).mpr ⟨row.name, howner⟩)).1 rfl
  · intro hheld
    have hnone : ∀ name, (name, noOwner) ∉ st.owners := by
      intro name hmem
      obtain ⟨row, hrow, heq⟩ := List.mem_map.mp hmem
      exact hheld row hrow (Prod.mk.inj heq).2
    refine ⟨fun client name _ => hsets client name, fun client hclient => ?_,
      fun name hfree => absurd hfree (hnone name)⟩
    obtain ⟨name, hname⟩ := (hclients client).mp hclient
    refine ⟨?_, name, hname⟩
    rintro rfl
    exact hnone name hname

/-- After `initializeLeader` over any store the recovered list and sets are those
    of the store if and only if it has no node; the sets alone are if and only if
    none of its locks is free. -/
theorem recoveryExact_iff (before : Leader Store) :
    ∃ files after, (leaderDb sq strHash).getStates before.db = .ret files before.db ∧
      initializeLeader (Service.paxos sq strHash stillNamed) before = .ret () after ∧
      after.db = before.db ∧
      (RecoveryExact before.db files after.client2heldLockMap ↔ before.db.fs = []) ∧
      (HeldExact before.db after.client2heldLockMap ↔
        ∀ row ∈ before.db.fs, row.lockOwner ≠ noOwner) := by
  obtain ⟨after, hafter, hdb, hsets, hclients⟩ :=
    initializeLeader_paxos sq strHash stillNamed before
  have hheld := heldExact_iff hsets hclients
  refine ⟨_, after, leaderDb_getStates sq strHash before.db, hafter, hdb, ?_, hheld⟩
  constructor
  · intro hexact
    exact List.map_eq_nil_iff.mp ((perm_double_iff _).mp hexact.listed)
  · intro hempty
    refine ⟨(perm_double_iff _).mpr (List.map_eq_nil_iff.mpr hempty), hheld.mpr ?_⟩
    rw [hempty]
    exact fun row hrow => absurd hrow List.not_mem_nil

/-- A store with one file, whose lock is free, is not recovered. -/
theorem not_recoveryExact :
    ¬ ∀ st, (ServerDb.calls .refusing (fun _ => 0) Store.empty).Reach (fun _ _ => True) st →
      ∀ before : Leader Store, before.db = st → ∃ files after,
        (leaderDb .refusing fun _ => 0).getStates st = .ret files st ∧
        initializeLeader (Service.paxos .refusing (fun _ => 0) inlineNamed) before = .ret () after ∧
        RecoveryExact st files after.client2heldLockMap := by
  intro hall
  have hrun : ∃ st, (ServerDb.calls .refusing (fun _ => 0) Store.empty).exec (fun _ _ => True)
      [.checkAndCreate ['/', 'f'] false] Store.empty = some st ∧
        st.owners = [(['/', 'f'], noOwner)] := ⟨_, rfl, rfl⟩
  obtain ⟨st, hst, howners⟩ := hrun
  obtain ⟨files, after, hfiles, _, hexact⟩ :=
    hall st (Lts.Reach.exec (.init rfl) hst) (.fresh st 0) rfl
  rw [leaderDb_getStates] at hfiles
  cases hfiles
  have hempty := (perm_double_iff _).mp hexact.listed
  rw [howners] at hempty
  cases hempty

end Initialize

/-! ## The acquire of a client that owns the lock -/

/-- The client owns the lock of the file: it is the owner in the row the look-up
    of `testAndSetLockOwner` selects. -/
def Owns (sq : Engine) (st : Store) (fileName client : Str) : Prop :=
  ∃ row, query sq "instance_number, lock_owner, lock_generation_number".toList fileName st =
    .ok (some row) ∧ row.lockOwner = client

/-- The id of a `chubby_client` as it is sent: `std::to_string(id_)`. -/
def clientName (id : UInt64) : Str := Nat.toDigits 10 id.toNat

/-- A run in which the reply to an `acquire` is lost. The leader `old` has set the
    lock owner for its caller; whatever was done after that, the leader `new` has
    taken over the store it left; the client, which still owns the lock, has a
    session there. -/
structure ReplyLost (sq : Engine) (strHash : Str → UInt64)
    (stillNamed : FdRecord → Bool) (first : Store) (client : Str)
    (fd : FileHandler) (old : Leader Store) (session : SessionId) (committed last : Store)
    (new : Leader Store) (session' : SessionId) : Prop where
  leads : ∃ n, ((Service.paxos sq strHash stillNamed).leader first n).Reach (fun _ _ => True) old
  caller : old.client session = client
  commits : (leaderDb sq strHash).testAndSetLockOwner fd.fileName fd.instanceNumber client old.db =
    .ret true committed
  goesOn : (ServerDb.calls sq strHash committed).Reach (fun _ _ => True) last
  takesOver : ∃ n, ((Service.paxos sq strHash stillNamed).leader last n).Reach (fun _ _ => True) new
  initialised : Action.initialized ∈ new.log
  reconnects : new.client session' = client
  owns : Owns sq new.db fd.fileName client

/-- The leader answers the `acquire` that is sent to it with `true`. -/
def AnswersAcquire {δ : Type} (E : Service δ) (st : Leader δ) (session : SessionId) (xid : Xid)
    (fd : FileHandler) : Prop :=
  ∃ st' rest, Leader.step E (.rpc session xid (.acquire fd)) st = some st' ∧
    st'.log = st.log ++ rest ∧ .reply session xid (.bool true) ∈ rest

section Reacquire

variable (sq : Engine) (strHash : Str → UInt64) (stillNamed : FdRecord → Bool)

theorem clientName_ne_nil (id : UInt64) : clientName id ≠ [] := Nat.toDigits_ne_nil

/-- No client has the name that stands for a free lock. -/
theorem clientName_ne_noOwner (id : UInt64) : clientName id ≠ noOwner := by
  intro h
  have hdigit : 'e'.isDigit = true := by
    refine Nat.isDigit_of_mem_toDigits (b := 10) (n := id.toNat) (by decide) (by decide) ?_
    have hmem : 'e' ∈ noOwner := by decide
    rwa [← h] at hmem
  exact absurd hdigit (by decide)

/-- A lock that is owned is given to nobody, its owner included. -/
theorem testAndSetLockOwner_owned {st : Store} {fileName client : Str}
    (h : Owns sq st fileName client)
    (hclient : client ≠ noOwner) (n : UInt64) :
    (leaderDb sq strHash).testAndSetLockOwner fileName n client st = .ret false st := by
  obtain ⟨row, hquery, rfl⟩ := h
  have hheld : lockFound sq fileName row.lockOwner row st = .ret false st := by
    unfold lockFound
    rw [if_pos hclient]
    rfl
  rw [leaderDb_testAndSetLockOwner, testAndSetLockOwner_checked, hquery]
  unfold checked
  dsimp only
  rw [hheld]
  split_ifs <;> rfl

/-- An `acquire` by the owner of the lock is put into the queue. -/
theorem acquire_of_owns (st : Leader Store) (session : SessionId) (xid : Xid) (fd : FileHandler)
    (hnone : st.client session ≠ []) (hfree : st.client session ≠ noOwner)
    (howns : Owns sq st.db fd.fileName (st.client session)) :
    ∃ st', Leader.step (Service.paxos sq strHash stillNamed) (.rpc session xid (.acquire fd)) st =
      some st' ∧
      st'.log = st.log ++ [.call session xid (.acquire fd), .enqueue fd.fileName session xid] ∧
      st'.queue fd.fileName = some ((st.queue fd.fileName).getD [] ++ [(session, xid)]) := by
  have howned := testAndSetLockOwner_owned sq strHash howns hfree fd.instanceNumber
  have hdb : ∀ {a : Bool} {db : Store},
      (Service.paxos sq strHash stillNamed).db.testAndSetLockOwner fd.fileName fd.instanceNumber
        (st.client session) st.db = .ret a db → a = false ∧ db = st.db := by
    intro a db h
    cases howned.symm.trans h
    exact ⟨rfl, rfl⟩
  have hends :=
    handle_ends (Service.paxos sq strHash stillNamed) st (.rpc session xid (.acquire fd))
  unfold Leader.step
  generalize handle (Service.paxos sq strHash stillNamed)
      (.rpc session xid (.acquire fd)) st = o at hends ⊢
  cases hends with
  | acquire hends =>
    cases hends with
    | noClient hcon => exact absurd hcon hnone
    | crashed hcon => cases howned.symm.trans hcon
    | threw _ hcon => cases howned.symm.trans hcon
    | queued hcon _ => cases (hdb hcon).1
    | taken _ hcon _ => cases (hdb hcon).1
    | busy _ hbusy =>
      refine ⟨_, rfl, ?_, ?_⟩
      · show (st.log ++ _) ++ _ = _
        rw [List.append_assoc]
        rfl
      · show UMap.find (st.file2lockQueueMap.alter fd.fileName (· ++ [(session, xid)]))
          fd.fileName = _
        rw [UMap.find_alter, if_pos rfl]
        rfl

/-- Its caller hears nothing. -/
theorem not_answers_of_owns {st : Leader Store} {session : SessionId} {xid : Xid} {fd : FileHandler}
    (hnone : st.client session ≠ []) (hfree : st.client session ≠ noOwner)
    (howns : Owns sq st.db fd.fileName (st.client session)) :
    ¬ AnswersAcquire (Service.paxos sq strHash stillNamed) st session xid fd := by
  rintro ⟨st', rest, hstep, hlog, hreply⟩
  obtain ⟨st'', hstep', hlog', _⟩ :=
    acquire_of_owns sq strHash stillNamed st session xid fd hnone hfree howns
  obtain rfl := Option.some.inj (hstep.symm.trans hstep')
  rw [hlog'] at hlog
  rw [← List.append_cancel_left hlog] at hreply
  simp at hreply

/-- In no run is the `acquire` whose reply was lost answered when it is sent
    again: it waits in the queue for the lock its own client owns. -/
theorem reacquire_waits (first : Store) (id : UInt64) (fd : FileHandler) (old : Leader Store)
    (session : SessionId) (committed last : Store) (new : Leader Store) (session' : SessionId)
    (h : ReplyLost sq strHash stillNamed first
      (clientName id) fd old session committed last new session')
    (xid : Xid) :
    ¬ AnswersAcquire (Service.paxos sq strHash stillNamed) new session' xid fd ∧
      ∃ new', Leader.step (Service.paxos sq strHash stillNamed)
        (.rpc session' xid (.acquire fd)) new =
          some new' ∧
        new'.queue fd.fileName = some ((new.queue fd.fileName).getD [] ++ [(session', xid)]) := by
  have hname := h.reconnects
  have hnone : new.client session' ≠ [] := hname ▸ clientName_ne_nil id
  have hfree : new.client session' ≠ noOwner := hname ▸ clientName_ne_noOwner id
  have howns : Owns sq new.db fd.fileName (new.client session') := hname ▸ h.owns
  obtain ⟨new', hstep, _, hqueue⟩ :=
    acquire_of_owns sq strHash stillNamed new session' xid fd hnone hfree howns
  exact ⟨not_answers_of_owns sq strHash stillNamed hnone hfree howns, new', hstep, hqueue⟩

/-- A client creates a file and is given its lock, and its leader fails; the new
    leader is initialised, and the client starts its session and opens the file again. -/
theorem replyLost_run : ∃ old committed new,
    ReplyLost .refusing (fun _ => 0) inlineNamed .empty
      (clientName 7) ⟨0, 0, ['/', 'f'], 1, false⟩ old 1
      committed committed new 1 := by
  have hold : ∃ old, ((Service.paxos .refusing (fun _ => 0) inlineNamed).leader .empty 0).exec
      (fun _ _ => True) [.initializeLeader, .rpc 1 1 (.startSession (clientName 7)),
        .rpc 1 2 (.fileOpen ['/', 'f'] ModeFlag.createFile)] (.fresh .empty 0) = some old ∧
      old.client 1 = clientName 7 ∧ ∃ committed,
        (leaderDb .refusing fun _ => 0).testAndSetLockOwner ['/', 'f'] 1 (clientName 7) old.db =
          .ret true committed ∧
        ∃ new, ((Service.paxos .refusing (fun _ => 0) inlineNamed).leader committed 0).exec
          (fun _ _ => True) [.initializeLeader, .rpc 1 1 (.startSession (clientName 7)),
            .rpc 1 2 (.fileReopen ⟨0, 0, ['/', 'f'], 1, false⟩ ModeFlag.createFile)]
          (.fresh committed 0) = some new ∧ new.client 1 = clientName 7 ∧
            Action.initialized ∈ new.log ∧ Owns .refusing new.db ['/', 'f'] (clientName 7) := by
    refine ⟨_, rfl, rfl, _, rfl, _, rfl, rfl, ?_, _, rfl, rfl⟩
    exact List.mem_cons_self
  obtain ⟨old, hold, hcaller, committed, hcommits, new, hnew, hclient, hinit, howns⟩ := hold
  exact ⟨old, committed, new, ⟨0, Lts.Reach.exec (.init rfl) hold⟩, hcaller, hcommits, .init rfl,
    ⟨0, Lts.Reach.exec (.init rfl) hnew⟩, hinit, hclient, howns⟩

theorem reacquire_waits_run : ∃ new,
    ¬ AnswersAcquire (Service.paxos .refusing (fun _ => 0) inlineNamed) new 1 3
        ⟨0, 0, ['/', 'f'], 1, false⟩ ∧
      ∃ new', Leader.step (Service.paxos .refusing (fun _ => 0) inlineNamed)
          (.rpc 1 3 (.acquire ⟨0, 0, ['/', 'f'], 1, false⟩)) new = some new' ∧
        new'.queue ['/', 'f'] = some ((new.queue ['/', 'f']).getD [] ++ [(1, 3)]) := by
  obtain ⟨old, committed, new, h⟩ := replyLost_run
  exact ⟨new, reacquire_waits .refusing (fun _ => 0) inlineNamed .empty 7
    ⟨0, 0, ['/', 'f'], 1, false⟩ old 1
    committed committed new 1 h 3⟩

/-- Not every `acquire` that is sent again by the owner of the lock is answered. -/
theorem not_answersAcquire :
    ¬ ∀ (first : Store) (id : UInt64) (fd : FileHandler) (old : Leader Store)
      (session : SessionId) (committed last : Store) (new : Leader Store) (session' : SessionId),
      ReplyLost .refusing (fun _ => 0) inlineNamed first
        (clientName id) fd old session committed last new
        session' →
      ∀ xid, AnswersAcquire (Service.paxos .refusing (fun _ => 0) inlineNamed) new session'
        xid fd := by
  intro hall
  obtain ⟨old, committed, new, h⟩ := replyLost_run
  have hclient := h.reconnects
  exact not_answers_of_owns .refusing (fun _ => 0) inlineNamed (hclient ▸ clientName_ne_nil 7)
    (hclient ▸ clientName_ne_noOwner 7) (hclient ▸ h.owns) (hall _ _ _ _ _ _ _ _ _ h 3)

end Reacquire

end SimpleChubby
