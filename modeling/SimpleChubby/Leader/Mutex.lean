import SimpleChubby.Leader.Locks

/-!
# Mutual exclusion

Who holds a lock is told by the replies: a client holds it from the true reply
to its `acquire` or `tryAcquire` until its release, its closing of the file or
the end of its session. The hand-off in `release` answers a waiter while the
database records no owner, so a newcomer may take the lock as well. Runs in
which no newcomer meets such a lock keep mutual exclusion.
-/

namespace SimpleChubby

/-! ## Who holds a lock -/

/-- The handle of a request for a lock. -/
def Request.acquires : Request → Option FileHandler
  | .acquire fd => some fd
  | .tryAcquire fd => some fd
  | _ => none

/-- The handle of a release. -/
def Request.releases : Request → Option FileHandler
  | .release fd => some fd
  | _ => none

/-- The waiters that are popped and answered with a true reply: their clients
    with the file. -/
def handedOver (client : SessionId → Str) : List Action → List (Str × Str)
  | [] => []
  | .dequeue f s x :: rest =>
    if rest.head? = some (.reply s x (.bool true)) then
      (client s, f) :: handedOver client rest
    else handedOver client rest
  | _ :: rest => handedOver client rest

section Holders

variable (sq : Engine) (strHash : Str → UInt64) (stillNamed : FdRecord → Bool)

/-- Whether a release with the handle is successful. -/
def releasesLock (fd : FileHandler) (st : Leader Store) : Bool :=
  match (leaderDb sq strHash).resetLockOwner fd.fileName fd.instanceNumber st.db with
  | .ret done _ => done
  | .stop _ _ => false

/-- The holders after an input that was handled in the state `st` and added
    `added` to the log. A release ends before the lock is handed over, a close
    and a disconnect end after it. -/
def holdersAfter (st : Leader Store) (added : List Action) (holders : List (Str × Str)) :
    Input → List (Str × Str)
  | .rpc s x (.acquire fd) =>
    if .reply s x (.bool true) ∈ added then holders ++ [(st.client s, fd.fileName)] else holders
  | .rpc s x (.tryAcquire fd) =>
    if .reply s x (.bool true) ∈ added then holders ++ [(st.client s, fd.fileName)] else holders
  | .rpc s _ (.release fd) =>
    (if releasesLock sq strHash fd st then holders.filter (· ≠ (st.client s, fd.fileName))
      else holders) ++ handedOver st.client added
  | .rpc s _ (.fileClose fd) =>
    (holders ++ handedOver st.client added).filter (· ≠ (st.client s, fd.fileName))
  | .disconnect s => (holders ++ handedOver st.client added).filter (·.1 ≠ st.client s)
  | _ => holders

/-- The leader with the clients that hold locks, each with the file. -/
structure Contest where
  leader : Leader Store
  holders : List (Str × Str)

/-- One input. -/
def Contest.step (input : Input) (t : Contest) : Option Contest :=
  (Leader.step (Service.paxos sq strHash stillNamed) input t.leader).map fun st =>
    ⟨st, holdersAfter sq strHash t.leader (st.log.drop t.leader.log.length) t.holders input⟩

/-- The runs of the leader over an empty store. -/
def Contest.lts (masterSequenceNumber : UInt64) : Lts Contest Input where
  init t := t = ⟨.fresh .empty masterSequenceNumber, []⟩
  step := Contest.step sq strHash stillNamed

end Holders

/-- At most one client holds the lock of a file. -/
def MutualExclusion (t : Contest) : Prop :=
  ∀ f c c', (c, f) ∈ t.holders → (c', f) ∈ t.holders → c = c'

/-- The sessions that have started, with their client ids. -/
def started (log : List Action) : List (SessionId × Str) :=
  log.filterMap fun
    | .call s _ (.startSession clientId) => some (s, clientId)
    | _ => none

/-- Sessions start once, with distinct client ids; a session presents handles
    that were sent to it; a client that releases a lock holds it. -/
def WellBehaved (t : Contest) : Input → Prop
  | .rpc s _ request =>
    (∀ clientId ∈ request.starts, ∀ p ∈ started t.leader.log, p.1 ≠ s ∧ p.2 ≠ clientId) ∧
    (∀ fd ∈ request.handle, (s, fd) ∈ handlesSent t.leader.log) ∧
    ∀ fd ∈ request.releases, (t.leader.client s, fd.fileName) ∈ t.holders
  | .disconnect _ => True
  | .initializeLeader => False

instance (t : Contest) : ∀ input, Decidable (WellBehaved t input)
  | .rpc s _ request => inferInstanceAs (Decidable (
      (∀ clientId ∈ request.starts, ∀ p ∈ started t.leader.log, p.1 ≠ s ∧ p.2 ≠ clientId) ∧
      (∀ fd ∈ request.handle, (s, fd) ∈ handlesSent t.leader.log) ∧
      ∀ fd ∈ request.releases, (t.leader.client s, fd.fileName) ∈ t.holders))
  | .disconnect _ => inferInstanceAs (Decidable True)
  | .initializeLeader => inferInstanceAs (Decidable False)

/-- A request for a lock that the database has free under the handle's instance
    number finds the file noted for no other client. -/
def Vacant (t : Contest) : Input → Prop
  | .rpc s _ request => ∀ fd ∈ request.acquires,
    t.leader.db.lock fd.fileName = some ⟨wire fd.instanceNumber, noOwner⟩ →
      ∀ c, c ≠ t.leader.client s → fd.fileName ∉ t.leader.held c
  | _ => True

/-! ## The notes of held locks -/

section Notes

variable {δ : Type} {E : Service δ} {session : SessionId} {xid : Xid} {fd : FileHandler}
  {st st' : Leader δ}

/-- A lock is noted for one client at most. -/
def Leader.Exclusive (st : Leader δ) : Prop :=
  ∀ f c c', f ∈ st.held c → f ∈ st.held c' → c = c'

theorem Leader.client_entered (s : SessionId) : (st.entered session fd).client s = st.client s :=
  UMap.get_touch _ _ _

theorem mem_handedOver {client : SessionId → Str} {l : List Action} {p : Str × Str}
    (h : p ∈ handedOver client l) : ∃ f s x, .dequeue f s x ∈ l ∧ p = (client s, f) := by
  induction l with
  | nil => cases h
  | cons a rest ih =>
    have hrest : p ∈ handedOver client rest →
        ∃ f s x, .dequeue f s x ∈ a :: rest ∧ p = (client s, f) := by
      intro hp
      obtain ⟨f, s, x, hm, hp⟩ := ih hp
      exact ⟨f, s, x, List.mem_cons_of_mem _ hm, hp⟩
    cases a with
    | dequeue f s x =>
      unfold handedOver at h
      split_ifs at h
      · rcases List.mem_cons.mp h with rfl | h
        · exact ⟨f, s, x, List.mem_cons_self, rfl⟩
        · exact hrest h
      · exact hrest h
    | _ => exact hrest h

theorem Pops.append {P : Str → SessionId → Prop} {l l' : List Action} (h : Pops P l)
    (h' : Pops P l') : Pops P (l ++ l') := by
  intro f w x hm
  rcases List.mem_append.mp hm with hm | hm
  · exact h f w x hm
  · exact h' f w x hm

theorem Pops.quiet {P : Str → SessionId → Prop} {l : List Action}
    (h : ∀ a ∈ l, a.quiet = true) : Pops P l := by
  intro f w x hm
  have hquiet := h _ hm
  cases hquiet

/-- A release leaves the notes alone, or it moves the note from the session's
    client to the client of the waiter it pops. -/
theorem ReleaseEnds.moves (h : ReleaseEnds E session xid fd st (.ret () st')) :
    ((∀ db, E.db.resetLockOwner fd.fileName fd.instanceNumber st.db ≠ .ret true db) ∧
      (∀ c, st'.held c = st.held c) ∧ Leader.Adds (Pops fun _ _ => False) st st') ∨
    ((∃ db, E.db.resetLockOwner fd.fileName fd.instanceNumber st.db = .ret true db) ∧
      ∃ o : Option Str,
        (∀ c g, g ∈ st'.held c ↔ (g ∈ st.held c ∧ ¬ (c = st.client session ∧ g = fd.fileName)) ∨
          some c = o ∧ g = fd.fileName) ∧
        Leader.Adds (Pops fun f w => f = fd.fileName ∧ some (st.client w) = o) st st') := by
  cases h with
  | threw hc hdb =>
    refine Or.inl ⟨fun db heq => ?_, fun _ => rfl, _, .quiet quiet_replyOf, rfl⟩
    rw [hdb] at heq
    cases heq
  | refused hc hdb =>
    refine Or.inl ⟨fun db heq => ?_, fun _ => rfl, _, .quiet quiet_replyOf, rfl⟩
    rw [hdb] at heq
    cases heq
  | @released db st₁ hc hdb hoff =>
    obtain ⟨o, hheld, l, hl, hlog⟩ := hoff.moves
    refine Or.inr ⟨⟨db, hdb⟩, o, fun c g => ?_, Leader.replyOf session xid (.bool true) ++ l ++
      st₁.lockEvents fd.fileName, ?_, ?_⟩
    · have hiff := hheld c g
      have hunhold : g ∈ (st.released session xid fd db).held c ↔
          g ∈ st.held c ∧ ¬ (c = st.client session ∧ g = fd.fileName) := Leader.mem_unhold
      rw [hunhold] at hiff
      exact hiff
    · refine (Pops.append (.quiet quiet_replyOf) fun f w x hm => ?_).append
        (.quiet quiet_lockEvents)
      obtain ⟨hf, ho⟩ := hl f w x hm
      refine ⟨hf, ?_⟩
      have hclient : (st.entered session fd).client w = st.client w := Leader.client_entered w
      rw [← ho, ← hclient]
      rfl
    · rw [Leader.logged_log, hlog]
      simp

/-- What a step of one session keeps: locks stay with one client each, the
    notes of other clients and files stay, and the waiters popped are noted. -/
structure Leader.Moved (st : Leader δ) (mine : Str → Str → Prop) (gone : SessionId → Prop)
    (st' : Leader δ) : Prop where
  exclusive : st'.Exclusive
  kept : ∀ c g, ¬ mine c g → g ∈ st.held c → g ∈ st'.held c
  handed : Leader.Adds (Pops fun f w => gone w ∨ f ∈ st'.held (st.client w)) st st'

/-- A release of a lock that is noted for the session's client. -/
theorem ReleaseEnds.moved (h : ReleaseEnds E session xid fd st (.ret () st'))
    (hone : st.Exclusive) (hheld : fd.fileName ∈ st.held (st.client session)) :
    st.Moved (fun c g => c = st.client session ∧ g = fd.fileName) (fun _ => False) st' := by
  rcases h.moves with ⟨_, hsame, l, hl, hlog⟩ | ⟨_, o, hmoved, l, hl, hlog⟩
  · refine ⟨fun f c c' hc hc' => ?_, fun c g _ hg => ?_, l, fun f w x hm => ?_, hlog⟩
    · rw [hsame] at hc hc'
      exact hone f c c' hc hc'
    · rw [hsame]
      exact hg
    · exact (hl f w x hm).elim
  · refine ⟨fun f c c' hc hc' => ?_, fun c g hmine hg => ?_, l, fun f w x hm => ?_, hlog⟩
    · -- the file of the release is noted for its new client only
      have hnew : ∀ c, fd.fileName ∈ st'.held c → some c = o := by
        intro c hc
        rcases (hmoved c _).mp hc with ⟨hc, hnot⟩ | ⟨ho, _⟩
        · exact absurd ⟨hone _ _ _ hc hheld, rfl⟩ hnot
        · exact ho
      by_cases hf : f = fd.fileName
      · subst hf
        exact Option.some.inj ((hnew c hc).trans (hnew c' hc').symm)
      · have hold : ∀ c, f ∈ st'.held c → f ∈ st.held c := by
          intro c hc
          rcases (hmoved c f).mp hc with ⟨hc, _⟩ | ⟨_, hcon⟩
          · exact hc
          · exact absurd hcon hf
        exact hone f c c' (hold c hc) (hold c' hc')
    · exact (hmoved c g).mpr (Or.inl ⟨hg, hmine⟩)
    · obtain ⟨hf, ho⟩ := hl f w x hm
      exact Or.inr ((hmoved _ f).mpr (Or.inr ⟨ho, hf⟩))

theorem ReclaimEnds.moved
    (h : ReclaimEnds E session fd (st.client session) (st.entered session fd) (.ret () st'))
    (hone : st.Exclusive) :
    st.Moved (fun c g => c = st.client session ∧ g = fd.fileName) (fun _ => False) st' := by
  cases h with
  | notHeld _ =>
    refine ⟨hone, fun c g _ hg => hg, [], fun f w x hm => ?_, (List.append_nil _).symm⟩
    exact absurd hm List.not_mem_nil
  | held hheld hr =>
    have hclient : ∀ s, (st.entered session fd).client s = st.client s :=
      fun s => Leader.client_entered s
    have hheld' : fd.fileName ∈
        (st.entered session fd).held ((st.entered session fd).client session) := by
      rw [hclient]
      exact hheld
    obtain ⟨hexclusive, hkept, l, hl, hlog⟩ := hr.moved hone hheld'
    simp only [hclient] at hkept hl
    exact ⟨hexclusive, hkept, l, hl, hlog⟩

/-- Events and replies of one's own move no lock. -/
theorem Leader.Moved.quiet {mine : Str → Str → Prop} {gone : SessionId → Prop} {st₁ : Leader δ}
    (h : st.Moved mine gone st₁) (hheld : st'.client2heldLockMap = st₁.client2heldLockMap)
    (hlog : Leader.Adds (fun l => ∀ a ∈ l, a.quiet = true) st₁ st') : st.Moved mine gone st' := by
  have hsame : ∀ c, st'.held c = st₁.held c := by
    intro c
    unfold Leader.held
    rw [hheld]
  obtain ⟨hexclusive, hkept, l, hl, hlog₁⟩ := h
  obtain ⟨l', hl', hlog'⟩ := hlog
  refine ⟨fun f c c' hc hc' => ?_, fun c g hmine hg => ?_, l ++ l', ?_, ?_⟩
  · rw [hsame] at hc hc'
    exact hexclusive f c c' hc hc'
  · rw [hsame]
    exact hkept c g hmine hg
  · refine Pops.append (fun f w x hm => ?_) (.quiet hl')
    rw [hsame]
    exact hl f w x hm
  · rw [hlog', hlog₁, List.append_assoc]

theorem DeleteEnds.quiet {r : Except Unit Unit}
    (h : DeleteEnds E session xid fd st (.ret r st')) :
    Leader.Adds (fun l => ∀ a ∈ l, a.quiet = true) st st' := by
  cases h with
  | threw _ _ => exact ⟨_, quiet_replyOf, rfl⟩
  | refused _ _ => exact ⟨_, quiet_replyOf, rfl⟩
  | @deleted db hc hdb =>
    refine ⟨_, fun a ha => ?_, List.append_assoc _ _ _⟩
    rcases List.mem_append.mp ha with ha | ha
    · exact quiet_replyOf a ha
    · rcases List.mem_append.mp ha with ha | ha
      · exact quiet_contentEvents a ha
      · exact quiet_parentEvents a ha

/-- What happens to the notes in `fileClose` happens when the lock is reclaimed. -/
theorem CloseEnds.moved (h : CloseEnds E session xid fd st (.ret () st'))
    (hone : st.Exclusive) :
    st.Moved (fun c g => c = st.client session ∧ g = fd.fileName) (fun _ => False) st' := by
  cases h with
  | @deletes st₁ st₂ hc hreclaim _ hdelete =>
    have hdeleted : st.Moved _ _ st₂ :=
      (hreclaim.moved hone).quiet hdelete.held hdelete.quiet
    exact hdeleted.quiet rfl ⟨_, quiet_replyOf, rfl⟩
  | @closes st₁ st₂ hc hreclaim _ hclear =>
    have hcleared : st.Moved _ _ st₂ := (hreclaim.moved hone).quiet hclear.held
      ⟨[], fun a ha => absurd ha List.not_mem_nil, by rw [hclear.log, List.append_nil]; rfl⟩
    exact hcleared.quiet rfl ⟨_, quiet_replyOf, rfl⟩

/-- The loop of `disconnect` gives up locks of the session's client only. -/
theorem CloseAllEnds.moved {l : List FdRecord} {o : Outcome Stop (Leader δ) Unit}
    (h : CloseAllEnds E session l st o) (ho : o = .ret () st') (hone : st.Exclusive) :
    st.Moved (fun c _ => c = st.client session) (fun w => st.client w = st.client session)
      st' := by
  induction h with
  | done =>
    cases ho
    refine ⟨hone, fun c g _ hg => hg, [], fun f w x hm => ?_, (List.append_nil _).symm⟩
    exact absurd hm List.not_mem_nil
  | stopped _ => cases ho
  | @next q rest st st₁ o hclose hrest ih =>
    obtain ⟨hone₁, hkept₁, l₁, hl₁, hlog₁⟩ := hclose.moved hone
    obtain ⟨hone', hkept', l', hl', hlog'⟩ := ih ho hone₁
    have hclient : ∀ s, st₁.client s = st.client s := by
      intro s
      unfold Leader.client
      rw [hclose.sessions]
    simp only [hclient] at hkept' hl'
    refine ⟨hone', fun c g hmine hg => ?_, l₁ ++ l', ?_, ?_⟩
    · exact hkept' c g hmine (hkept₁ c g (fun hcon => hmine hcon.1) hg)
    · refine Pops.append (fun f w x hm => ?_) hl'
      by_cases hw : st.client w = st.client session
      · exact Or.inl hw
      · rcases hl₁ f w x hm with hno | hin
        · exact hno.elim
        · exact Or.inr (hkept' _ f hw hin)
    · rw [hlog', hlog₁, List.append_assoc]

/-- A true reply to a request for a lock goes with a note. -/
theorem AcquireEnds.moved {busy : Leader δ → Leader δ}
    (h : AcquireEnds E session xid fd busy st (.ret () st')) (hone : st.Exclusive)
    (hvacant : ∀ db, E.db.testAndSetLockOwner fd.fileName fd.instanceNumber (st.client session)
      st.db = .ret true db → ∀ c, c ≠ st.client session → fd.fileName ∉ st.held c)
    (hheld : ∀ st₁, (busy st₁).client2heldLockMap = st₁.client2heldLockMap)
    (hbusy : ∀ st₁, Leader.Adds (.reply session xid (.bool true) ∉ ·) st₁ (busy st₁)) :
    st'.Exclusive ∧ (∀ c g, g ∈ st.held c → g ∈ st'.held c) ∧
      Leader.Adds (.reply session xid (.bool true) ∈ · →
        fd.fileName ∈ st'.held (st.client session)) st st' := by
  cases h with
  | threw hc hdb =>
    refine ⟨hone, fun c g hg => hg, _, fun hm => ?_, rfl⟩
    cases (mem_replyOf hm).1
  | @taken db hc hdb hq =>
    refine ⟨fun f c c' hin hin' => ?_, fun c g hg => Leader.mem_hold.mpr (Or.inl hg),
      _, fun _ => Leader.mem_hold.mpr (Or.inr ⟨rfl, rfl⟩), List.append_assoc _ _ _⟩
    rcases Leader.mem_hold.mp hin with hin | ⟨rfl, rfl⟩
    · rcases Leader.mem_hold.mp hin' with hin' | ⟨rfl, rfl⟩
      · exact hone f c c' hin hin'
      · by_contra hne
        exact hvacant db hdb c hne hin
    · rcases Leader.mem_hold.mp hin' with hin' | ⟨rfl, _⟩
      · by_contra hne
        exact hvacant db hdb c' (Ne.symm hne) hin'
      · rfl
  | @busy db hc hdb =>
    obtain ⟨l, hl, hlog⟩ := hbusy ((st.entered session fd).setDb db)
    have hsame : ∀ c, (busy ((st.entered session fd).setDb db)).held c = st.held c := by
      intro c
      unfold Leader.held
      rw [hheld]
      rfl
    refine ⟨fun f c c' hin hin' => ?_, fun c g hg => ?_, l, fun hm => absurd hm hl, hlog⟩
    · rw [hsame] at hin hin'
      exact hone f c c' hin hin'
    · rw [hsame]
      exact hg

end Notes

/-! ## The runs -/

/-- The invariant of the runs with mutual exclusion: a holder's lock is noted. -/
structure MutexOk (t : Contest) : Prop where
  exclusive : t.leader.Exclusive
  noted : ∀ p ∈ t.holders, p.2 ∈ t.leader.held p.1
  sent : SendsAccepted t.leader.log

section Runs

variable {sq : Engine} {strHash : Str → UInt64} {stillNamed : FdRecord → Bool} {t : Contest}
  {st : Leader Store}

theorem MutexOk.mutualExclusion (h : MutexOk t) : MutualExclusion t :=
  fun f c c' hc hc' => h.exclusive f c c' (h.noted _ hc) (h.noted _ hc')

theorem added_eq {action : Action} {l : List Action}
    (h : st.log = (t.leader.logged [action]).log ++ l) :
    st.log.drop t.leader.log.length = action :: l := by
  rw [h, Leader.logged_log, List.append_assoc, List.drop_left]
  rfl

/-- The clients of popped waiters after the first action of a step. -/
theorem mem_handedOver_added {client : SessionId → Str} {action : Action} {l : List Action}
    {P : Str → SessionId → Prop} (haction : action.quiet = true) (hl : Pops P l)
    {p : Str × Str} (hp : p ∈ handedOver client (action :: l)) : ∃ w, P p.2 w ∧ p.1 = client w := by
  obtain ⟨f, w, x, hm, rfl⟩ := mem_handedOver hp
  rcases List.mem_cons.mp hm with rfl | hm
  · cases haction
  · exact ⟨w, hl f w x hm, rfl⟩

theorem noted_release {s : SessionId} {x : Xid} {fd : FileHandler} (h : MutexOk t)
    (hends : ReleaseEnds (Service.paxos sq strHash stillNamed) s x fd
      (t.leader.logged [.call s x (.release fd)]) (.ret () st))
    (hholder : (t.leader.client s, fd.fileName) ∈ t.holders) :
    st.Exclusive ∧ ∀ p ∈ holdersAfter sq strHash t.leader (st.log.drop t.leader.log.length)
      t.holders (.rpc s x (.release fd)), p.2 ∈ st.held p.1 := by
  obtain ⟨hexclusive, hkept, l, hl, hlog⟩ := hends.moved h.exclusive (h.noted _ hholder)
  refine ⟨hexclusive, fun p hp => ?_⟩
  rw [added_eq hlog] at hp
  rcases List.mem_append.mp hp with hp | hp
  · by_cases hreset : releasesLock sq strHash fd t.leader = true
    · rw [if_pos hreset, List.mem_filter] at hp
      obtain ⟨hp, hne⟩ := hp
      refine hkept p.1 p.2 (fun hcon => ?_) (h.noted p hp)
      exact of_decide_eq_true hne (Prod.ext hcon.1 hcon.2)
    · rw [if_neg hreset] at hp
      rcases hends.moves with ⟨_, hsame, _⟩ | ⟨⟨db, hdb⟩, _⟩
      · rw [hsame]
        exact h.noted p hp
      · have hcall : (leaderDb sq strHash).resetLockOwner fd.fileName fd.instanceNumber
            t.leader.db = .ret true db := hdb
        unfold releasesLock at hreset
        rw [hcall] at hreset
        exact absurd rfl hreset
  · obtain ⟨w, hw, hclient⟩ := mem_handedOver_added rfl hl hp
    rw [hclient]
    rcases hw with hno | hin
    · exact hno.elim
    · exact hin

theorem noted_close {s : SessionId} {x : Xid} {fd : FileHandler} (h : MutexOk t)
    (hends : CloseEnds (Service.paxos sq strHash stillNamed) s x fd
      (t.leader.logged [.call s x (.fileClose fd)]) (.ret () st)) :
    st.Exclusive ∧ ∀ p ∈ holdersAfter sq strHash t.leader (st.log.drop t.leader.log.length)
      t.holders (.rpc s x (.fileClose fd)), p.2 ∈ st.held p.1 := by
  obtain ⟨hexclusive, hkept, l, hl, hlog⟩ := hends.moved h.exclusive
  refine ⟨hexclusive, fun p hp => ?_⟩
  rw [added_eq hlog] at hp
  obtain ⟨hp, hne⟩ := List.mem_filter.mp hp
  rcases List.mem_append.mp hp with hp | hp
  · refine hkept p.1 p.2 (fun hcon => ?_) (h.noted p hp)
    exact of_decide_eq_true hne (Prod.ext hcon.1 hcon.2)
  · obtain ⟨w, hw, hclient⟩ := mem_handedOver_added rfl hl hp
    rw [hclient]
    rcases hw with hno | hin
    · exact hno.elim
    · exact hin

theorem noted_disconnect {s : SessionId} (h : MutexOk t)
    (hends : DisconnectEnds (Service.paxos sq strHash stillNamed) s
      (t.leader.logged [.disconnected s]) (.ret () st)) :
    st.Exclusive ∧ ∀ p ∈ holdersAfter sq strHash t.leader (st.log.drop t.leader.log.length)
      t.holders (.disconnect s), p.2 ∈ st.held p.1 := by
  cases hends with
  | @left st₁ hall =>
    obtain ⟨hexclusive, hkept, l, hl, hlog⟩ := hall.moved rfl h.exclusive
    refine ⟨hexclusive, fun p hp => ?_⟩
    have hadded : (st₁.left s).log.drop t.leader.log.length = .disconnected s :: l :=
      added_eq hlog
    rw [hadded] at hp
    obtain ⟨hp, hne⟩ := List.mem_filter.mp hp
    have hother := of_decide_eq_true hne
    rcases List.mem_append.mp hp with hp | hp
    · exact hkept p.1 p.2 hother (h.noted p hp)
    · obtain ⟨w, hw, hclient⟩ := mem_handedOver_added rfl hl hp
      rw [hclient] at hother ⊢
      rcases hw with hgone | hin
      · exact absurd hgone hother
      · exact hin

/-- A request for a lock, whatever it does when the lock is busy. -/
theorem noted_acquire {busy : Leader Store → Leader Store} {s : SessionId} {x : Xid}
    {request : Request} {fd : FileHandler} (h : MutexOk t)
    (hends : AcquireEnds (Service.paxos sq strHash stillNamed) s x fd busy
      (t.leader.logged [.call s x request]) (.ret () st))
    (hheld : ∀ st₁, (busy st₁).client2heldLockMap = st₁.client2heldLockMap)
    (hbusy : ∀ st₁, Leader.Adds (.reply s x (.bool true) ∉ ·) st₁ (busy st₁))
    (hfd : (s, fd) ∈ handlesSent t.leader.log)
    (hvacant : t.leader.db.lock fd.fileName = some ⟨wire fd.instanceNumber, noOwner⟩ →
      ∀ c, c ≠ t.leader.client s → fd.fileName ∉ t.leader.held c) :
    st.Exclusive ∧ ∀ p ∈ (if .reply s x (.bool true) ∈ st.log.drop t.leader.log.length then
      t.holders ++ [(t.leader.client s, fd.fileName)] else t.holders), p.2 ∈ st.held p.1 := by
  have hname := name_of_handlesSent h.sent hfd
  obtain ⟨hexclusive, hkept, l, hl, hlog⟩ := hends.moved h.exclusive
    (fun db hdb => hvacant (free_of_testAndSet sq strHash hname.plain hdb)) hheld hbusy
  refine ⟨hexclusive, fun p hp => ?_⟩
  rw [added_eq hlog] at hp
  split_ifs at hp with hreply
  · rcases List.mem_append.mp hp with hp | hp
    · exact hkept p.1 p.2 (h.noted p hp)
    · rw [List.mem_singleton.mp hp]
      rcases List.mem_cons.mp hreply with hcon | hreply
      · cases hcon
      · exact hl hreply
  · exact hkept p.1 p.2 (h.noted p hp)

/-- The inputs that have nothing to do with who holds a lock. -/
theorem noted_same (h : MutexOk t)
    (hheld : st.client2heldLockMap = t.leader.client2heldLockMap) :
    st.Exclusive ∧ ∀ p ∈ t.holders, p.2 ∈ st.held p.1 := by
  unfold Leader.Exclusive Leader.held
  rw [hheld]
  exact ⟨h.exclusive, h.noted⟩

theorem MutexOk.step {t' : Contest} {input : Input} (h : MutexOk t)
    (hwell : WellBehaved t input) (hvacant : Vacant t input)
    (hstep : Contest.step sq strHash stillNamed input t = some t') : MutexOk t' := by
  obtain ⟨st, hst, rfl⟩ := Option.map_eq_some_iff.mp hstep
  have hends := step_ends _ hst
  obtain ⟨l, hl, hlog⟩ := hends.sendsAccepted
  have hsent : SendsAccepted st.log := by
    intro a ha
    rw [hlog] at ha
    rcases List.mem_append.mp ha with ha | ha
    · exact h.sent a ha
    · exact hl a ha
  have hnoted : st.Exclusive ∧ ∀ p ∈ holdersAfter sq strHash t.leader
      (st.log.drop t.leader.log.length) t.holders input, p.2 ∈ st.held p.1 := by
    cases hends with
    | fileOpen ho => exact noted_same h ho.held
    | fileClose ho => exact noted_close h ho
    | fileDelete ho => exact noted_same h ho.held
    | getContentsAndStat ho => exact noted_same h ho.held
    | setContents ho => exact noted_same h ho.held
    | @acquire s x fd _ ho =>
      refine noted_acquire h ho (fun _ => rfl) (fun st₁ => ⟨_, ?_, rfl⟩) (hwell.2.1 fd rfl)
        (hvacant fd rfl)
      simp
    | @tryAcquire s x fd _ ho =>
      refine noted_acquire h ho (fun _ => rfl) (fun st₁ => ⟨_, fun hm => ?_, rfl⟩)
        (hwell.2.1 fd rfl) (hvacant fd rfl)
      cases (mem_replyOf hm).1
    | release ho => exact noted_release h ho (hwell.2.2 _ rfl)
    | startSession ho => exact noted_same h ho.held
    | fileReopen => exact noted_same h rfl
    | disconnect ho => exact noted_disconnect h ho
    | initializeLeader _ => exact hwell.elim
  exact ⟨hnoted.1, hnoted.2, hsent⟩

end Runs

/-- In every run of well-behaved sessions in which each request for a lock finds
    it vacant or taken in the database, at most one client holds a lock. -/
theorem mutualExclusion_reachable (sq : Engine) (strHash : Str → UInt64)
    (stillNamed : FdRecord → Bool)
    (masterSequenceNumber : UInt64) (t : Contest)
    (h : (Contest.lts sq strHash stillNamed masterSequenceNumber).Reach
      (fun t input => WellBehaved t input ∧ Vacant t input) t) : MutualExclusion t := by
  have hok : MutexOk t := by
    refine h.invariant ?_ ?_
    · rintro t rfl
      refine ⟨fun f c c' hc _ => ?_, fun p hp => ?_, fun a ha => ?_⟩
      · exact absurd hc (Finset.notMem_empty f)
      · exact absurd hp List.not_mem_nil
      · exact absurd ha List.not_mem_nil
    · intro t t' input _ hok hgood hstep
      exact hok.step hgood.1 hgood.2 hstep
  exact hok.mutualExclusion

theorem mutualExclusion_alone : ∃ t, (Contest.lts .refusing (fun _ => 0) inlineNamed 0).Reach
    (fun t input => WellBehaved t input ∧ Vacant t input) t ∧
      t.holders = [(['1'], ['/', 'f'])] ∧ MutualExclusion t := by
  have hstart : (Contest.lts .refusing (fun _ => 0) inlineNamed 0).Reach
      (fun t input => WellBehaved t input ∧ Vacant t input) ⟨.fresh .empty 0, []⟩ := .init rfl
  have hstarted := hstart.step (l := .rpc 1 1 (.startSession ['1']))
    ⟨by decide, by rintro fd ⟨⟩⟩ rfl
  have hopened := hstarted.step (l := .rpc 1 2 (.fileOpen ['/', 'f'] ModeFlag.createFile))
    ⟨by decide, by rintro fd ⟨⟩⟩ rfl
  have hacquired := hopened.step (l := .rpc 1 3 (.acquire ⟨0, 0, ['/', 'f'], 1, false⟩))
    ⟨by decide, by
      -- no lock is noted for anybody yet
      intro fd _ _ c _ hc
      exact Finset.notMem_empty _ hc⟩ rfl
  exact ⟨_, hacquired, by decide, mutualExclusion_reachable _ _ _ _ _ hacquired⟩

/-- A waiter is handed the lock, and a newcomer takes it as well. -/
def handOverThenTake : List Input :=
  let fd : FileHandler := ⟨0, 0, ['/', 'f'], 1, false⟩
  [.rpc 1 1 (.startSession ['1']), .rpc 2 1 (.startSession ['2']),
    .rpc 3 1 (.startSession ['3']), .rpc 1 2 (.fileOpen ['/', 'f'] ModeFlag.createFile),
    .rpc 2 2 (.fileOpen ['/', 'f'] 0), .rpc 3 2 (.fileOpen ['/', 'f'] 0),
    .rpc 1 3 (.acquire fd), .rpc 2 3 (.acquire fd), .rpc 1 4 (.release fd),
    .rpc 3 3 (.tryAcquire fd)]

/-- Well-behaved sessions alone do not keep mutual exclusion. -/
theorem not_mutualExclusion :
    ¬ ∀ t, (Contest.lts .refusing (fun _ => 0) inlineNamed 0).Reach WellBehaved t →
    MutualExclusion t := by
  intro hall
  have hrun :
      ∃ t, (Contest.lts .refusing (fun _ => 0) inlineNamed 0).exec WellBehaved handOverThenTake
      ⟨.fresh .empty 0, []⟩ = some t ∧ (['2'], ['/', 'f']) ∈ t.holders ∧
        (['3'], ['/', 'f']) ∈ t.holders := by
    refine ⟨_, rfl, ?_⟩
    decide
  obtain ⟨t, ht, htwo, hthree⟩ := hrun
  have hsame := hall t (Lts.Reach.exec (.init rfl) ht) _ _ _ htwo hthree
  cases hsame

end SimpleChubby
