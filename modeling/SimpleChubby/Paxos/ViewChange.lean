import SimpleChubby.Paxos.Views

/-!
# A view change at one replica

The manager's thread of one replica, channel by channel. `NotifyNewLeader` looks
again for the leader after the sleep, asks for one replica after the other, and
fetches the client of the one it has chosen a second time, without the lock. In
between the listener serves `replicate` and `init_view`, and the channels to the
other replicas go down and come up again.
-/

namespace SimpleChubby

namespace Paxos

/-! ## The threads of a replica -/

/-- What a thread has still to do that has made the replica a leader. -/
inductive Task where
  /-- `replicateCommand` broadcasts the new view. -/
  | replicating
  /-- `Initialize` of the back store runs. -/
  | initializing
  /-- `isInitialized` is to be set. -/
  | marking
  deriving DecidableEq, Repr

/-- The assertions of the manager's thread. -/
inductive ManagerAssertion where
  /-- `assert(isLeaderDown())` in `NotifyNewLeader`. -/
  | leaderDown
  /-- `assert(replica_client)` in `NotifyNewLeader`. -/
  | replicaClient
  /-- The assertions on the rank of the leader, in `isLeaderDown` and `getReplicaClient`. -/
  | leaderRank
  deriving DecidableEq, Repr

/-- Where the manager's thread is. -/
inductive Phase where
  /-- At the top of the loop in `run`, or asleep. -/
  | top
  /-- In `getNewLeaderRank`, about to ask for the replica `i`. It holds the lock. -/
  | scanning (i : Nat)
  /-- In `NotifyNewLeader`, which has released the lock to call the replica `rank`. -/
  | chosen (rank : Nat)
  /-- Waiting for the result of `init_view`. -/
  | notifying (rank : Nat)
  | leading (task : Task)
  | aborted (site : ManagerAssertion)
  /-- An exception has ended the thread, and the process with it. -/
  | ended
  deriving DecidableEq, Repr

/-- A replica: the state behind its lock, its two threads that change it, and the
    replicas `getReplicaClient` returns a client for. -/
structure Replica where
  state : ReplicaState
  manager : Phase
  /-- What the listener has still to do for the `init_view` it serves. -/
  listener : Option Task
  link : Nat → Bool

namespace Replica

/-- A replica that has just started. -/
def fresh (link : Nat → Bool) : Replica := ⟨.fresh, .top, none, link⟩

/-- What a thread has still to do as that of a new leader. -/
def task (r : Replica) : Thread → Option Task
  | .manager =>
    match r.manager with
    | .leading task => some task
    | _ => none
  | .listener => r.listener
  | .client => none

/-- A thread goes on to another task, or has done the last. -/
def setTask (r : Replica) (t : Thread) (task : Option Task) : Replica :=
  match t with
  | .manager => { r with manager := task.elim .top .leading }
  | .listener => { r with listener := task }
  | .client => r

/-- A thread other than the manager's gets the lock. -/
def unlocked (r : Replica) : Bool :=
  match r.manager with
  | .scanning _ => false
  | _ => true

/-- The process runs. -/
def alive (r : Replica) : Bool :=
  match r.manager with
  | .aborted _ => false
  | .ended => false
  | _ => true

section Steps

variable (cfg : Config) (own : Nat)

/-- Whether there is a client for the leader. -/
def reachable (r : Replica) : Bool :=
  (cfg.getClientUseAddressRank r.state.view.primary.addr).any r.link

/-- The rank `getNewLeaderRank` returns from where it is, if it returns there. -/
def settles (r : Replica) (i : Nat) : Option Nat :=
  if i < cfg.getMaxNumClient then
    if i ≠ own ∧ r.link i = true then some (if i < own then i else own) else none
  else some own

/-- What `NotifyNewLeader` does with the rank: the replica takes the leadership
    itself, or is to call another one. -/
def settled (r : Replica) (rank : Nat) : Replica :=
  if rank = own then { r with state := r.state.lead cfg own, manager := .leading .replicating }
  else { r with manager := .chosen rank }

/-- A turn of the loop in `run`, up to the scan of the other replicas. -/
def turn (r : Replica) : Replica :=
  if r.state.mode = .manager then
    match isLeaderDown cfg own (r.reachable cfg) r.state with
    | some true => { r with manager := .scanning 0 }
    | _ => { r with manager := .aborted .leaderDown }
  else
    match isLeaderDown cfg own (r.reachable cfg) r.state with
    | none => { r with manager := .aborted .leaderRank }
    | some true => { r with state := { r.state with mode := .manager } }
    | some false => r

/-- What can happen next at a replica. -/
inductive Label where
  | link (rank : Nat) (up : Bool)
  | run
  | scan
  | initView
  | notified (succeed : Bool)
  | newView (view : View)
  | promote
  | replicated (t : Thread)
  | initialized (t : Thread)
  | mark (t : Thread)
  | throws (t : Thread)
  deriving DecidableEq, Repr

/-- One step of the manager, of the listener, or of a channel. -/
def move (r : Replica) : Label → Option Replica
  | .link rank up => some { r with link := Function.update r.link rank up }
  | .run => if r.manager = .top then some (r.turn cfg own) else none
  | .scan =>
    match r.manager with
    | .scanning i =>
      match r.settles cfg own i with
      | some rank => some (r.settled cfg own rank)
      | none => some { r with manager := .scanning (i + 1) }
    | _ => none
  | .initView =>
    match r.manager with
    | .chosen rank =>
      if r.link rank then some { r with manager := .notifying rank }
      else some { r with manager := .aborted .replicaClient }
    | _ => none
  | .notified succeed =>
    match r.manager with
    | .notifying rank =>
      some { r with state := r.state.notified cfg rank succeed, manager := .top }
    | _ => none
  | .newView view =>
    if r.unlocked && r.listener.isNone then some { r with state := r.state.newView view }
    else none
  | .promote =>
    if r.unlocked && r.listener.isNone then
      if r.state.isLeader then some r
      else some { r with state := r.state.lead cfg own, listener := some .replicating }
    else none
  | .replicated t =>
    if r.task t = some .replicating then some (r.setTask t (some .initializing)) else none
  | .initialized t =>
    if r.task t = some .initializing then some (r.setTask t (some .marking)) else none
  | .mark t =>
    if r.unlocked ∧ r.task t = some .marking then
      some { r.setTask t none with state := { r.state with isInitialized := true } }
    else none
  | .throws t =>
    if r.task t = some .replicating ∨ r.task t = some .initializing then
      match t with
      | .manager => some { r with manager := .ended }
      | _ => some (r.setTask t none)
    else
      match t, r.manager with
      | .manager, .notifying _ => some { r with manager := .ended }
      | _, _ => none

/-- A step of a running process. -/
def step (l : Label) (r : Replica) : Option Replica := if r.alive then r.move cfg own l else none

/-- The runs of a replica, whatever the other replicas and the network do. -/
def lts : Lts Replica Label where
  init r := ∃ link, r = fresh link
  step := step cfg own

end Steps

/-! ## What a step can do -/

section Relation

variable (cfg : Config) (own : Nat)

/-- One constructor for each way through the step function. -/
inductive Moves (r : Replica) : Label → Replica → Prop
  | link {rank : Nat} {up : Bool} :
      Moves r (.link rank up) { r with link := Function.update r.link rank up }
  | turns : r.manager = .top → Moves r .run (r.turn cfg own)
  | settles {i rank : Nat} : r.manager = .scanning i → r.settles cfg own i = some rank →
      Moves r .scan (r.settled cfg own rank)
  | passes {i : Nat} : r.manager = .scanning i → r.settles cfg own i = none →
      Moves r .scan { r with manager := .scanning (i + 1) }
  | calls {rank : Nat} : r.manager = .chosen rank → r.link rank = true →
      Moves r .initView { r with manager := .notifying rank }
  /-- The manager finds no client for the chosen replica. -/
  | finds {rank : Nat} : r.manager = .chosen rank → r.link rank = false →
      Moves r .initView { r with manager := .aborted .replicaClient }
  | notified {rank : Nat} {succeed : Bool} : r.manager = .notifying rank →
      Moves r (.notified succeed)
        { r with state := r.state.notified cfg rank succeed, manager := .top }
  | newView {view : View} : r.unlocked = true → r.listener = none →
      Moves r (.newView view) { r with state := r.state.newView view }
  | refuses : r.state.isLeader = true → Moves r .promote r
  | promoted : r.unlocked = true → r.listener = none → r.state.isLeader = false →
      Moves r .promote { r with state := r.state.lead cfg own, listener := some .replicating }
  | replicated {t : Thread} : r.task t = some .replicating →
      Moves r (.replicated t) (r.setTask t (some .initializing))
  | initialized {t : Thread} : r.task t = some .initializing →
      Moves r (.initialized t) (r.setTask t (some .marking))
  | marked {t : Thread} : r.unlocked = true → r.task t = some .marking →
      Moves r (.mark t) { r.setTask t none with state := { r.state with isInitialized := true } }
  /-- An exception ends the manager's thread, and the process with it. -/
  | dies : Moves r (.throws .manager) { r with manager := .ended }
  /-- The RPC library catches an exception of the listener. -/
  | abandons {task : Task} : r.listener = some task →
      Moves r (.throws .listener) { r with listener := none }

variable {cfg own} {r r' : Replica}

theorem step_moves {l : Label} (h : step cfg own l r = some r') : Moves cfg own r l r' := by
  unfold step at h
  rw [Option.ite_none_right_eq_some] at h
  obtain ⟨_, hmove⟩ := h
  cases l with
  | link rank up =>
    obtain rfl := Option.some.inj hmove
    exact .link
  | run =>
    dsimp only [move] at hmove
    split_ifs at hmove with htop
    obtain rfl := Option.some.inj hmove
    exact .turns htop
  | scan =>
    dsimp only [move] at hmove
    split at hmove
    · next i hscan =>
      split at hmove
      · next rank hrank =>
        obtain rfl := Option.some.inj hmove
        exact .settles hscan hrank
      · next hnone =>
        obtain rfl := Option.some.inj hmove
        exact .passes hscan hnone
    · cases hmove
  | initView =>
    dsimp only [move] at hmove
    split at hmove
    · next rank hchosen =>
      split_ifs at hmove with hup
      · obtain rfl := Option.some.inj hmove
        exact .calls hchosen hup
      · obtain rfl := Option.some.inj hmove
        exact .finds hchosen (Bool.not_eq_true _ ▸ hup)
    · cases hmove
  | notified succeed =>
    dsimp only [move] at hmove
    split at hmove
    · next rank hnotifying =>
      obtain rfl := Option.some.inj hmove
      exact .notified hnotifying
    · cases hmove
  | newView view =>
    dsimp only [move] at hmove
    split_ifs at hmove with hserve
    obtain rfl := Option.some.inj hmove
    obtain ⟨hfree, hidle⟩ := Bool.and_eq_true_iff.mp hserve
    exact .newView hfree (Option.isNone_iff_eq_none.mp hidle)
  | promote =>
    dsimp only [move] at hmove
    split_ifs at hmove with hserve hleader
    · obtain rfl := Option.some.inj hmove
      exact .refuses hleader
    · obtain rfl := Option.some.inj hmove
      obtain ⟨hfree, hidle⟩ := Bool.and_eq_true_iff.mp hserve
      exact .promoted hfree (Option.isNone_iff_eq_none.mp hidle) (Bool.not_eq_true _ ▸ hleader)
  | replicated t =>
    dsimp only [move] at hmove
    split_ifs at hmove with htask
    obtain rfl := Option.some.inj hmove
    exact .replicated htask
  | initialized t =>
    dsimp only [move] at hmove
    split_ifs at hmove with htask
    obtain rfl := Option.some.inj hmove
    exact .initialized htask
  | mark t =>
    dsimp only [move] at hmove
    split_ifs at hmove with htask
    obtain rfl := Option.some.inj hmove
    exact .marked htask.1 htask.2
  | throws t =>
    dsimp only [move] at hmove
    split_ifs at hmove with htask
    · cases t with
      | manager =>
        obtain rfl := Option.some.inj hmove
        exact .dies
      | listener =>
        obtain rfl := Option.some.inj hmove
        rcases htask with htask | htask
        · exact .abandons htask
        · exact .abandons htask
      | client =>
        rcases htask with htask | htask
        · cases htask
        · cases htask
    · split at hmove
      · obtain rfl := Option.some.inj hmove
        exact .dies
      · cases hmove

end Relation

/-! ## The assertions of `NotifyNewLeader` -/

section Statement

variable (cfg : Config) (own : Nat)

/-- Where `NotifyNewLeader` is to be entered the leader is down, where it is to
    call `init_view` there is a client for the chosen rank, and neither of its
    assertions has failed. -/
structure NeverAborts (r : Replica) : Prop where
  leaderDown : r.manager = .top → r.state.mode = .manager →
    isLeaderDown cfg own (r.reachable cfg) r.state = some true
  client : ∀ rank, r.manager = .chosen rank → r.link rank = true
  asserts : r.manager ≠ .aborted .leaderDown ∧ r.manager ≠ .aborted .replicaClient

/-- A view without a leader, or with one that there is no client for. -/
def Unreached (link : Nat → Bool) (view : View) : Prop :=
  view.primary.addr = [] ∨
    ∃ j ∈ cfg.getClientUseAddressRank view.primary.addr, j ≠ own ∧ link j = false

/-- Between the look of the manager and `NotifyNewLeader` no channel to the leader
    comes up and no leader is announced that there is a channel to; and the
    channel to the chosen replica does not go down before it is used. -/
def Undisturbed (r : Replica) : Label → Prop
  | .link rank true => r.manager = .top → r.state.mode = .manager →
      r.state.view.primary.addr = [] ∨
        cfg.getClientUseAddressRank r.state.view.primary.addr ≠ some rank
  | .link rank false => r.manager ≠ .chosen rank
  | .newView view => r.manager = .top → r.state.mode = .manager →
      Unreached cfg own r.link view
  | _ => True

instance (link : Nat → Bool) (view : View) : Decidable (Unreached cfg own link view) :=
  inferInstanceAs (Decidable (_ ∨ ∃ j ∈ cfg.getClientUseAddressRank view.primary.addr, _))

instance (r : Replica) (l : Label) : Decidable (Undisturbed cfg own r l) := by
  unfold Undisturbed
  split <;> infer_instance

end Statement

section Invariant

variable {cfg : Config} {own : Nat} {r r' : Replica}

/-- `isLeaderDown` says yes to a replica that is no leader and cannot reach one. -/
theorem isLeaderDown_eq_true :
    isLeaderDown cfg own (r.reachable cfg) r.state = some true ↔
      r.state.isLeader = false ∧ Unreached cfg own r.link r.state.view := by
  unfold isLeaderDown Unreached reachable
  cases r.state.isLeader with
  | true => simp
  | false =>
    by_cases hnone : r.state.view.primary.addr = []
    · simp [hnone]
    · cases hrank : cfg.getClientUseAddressRank r.state.view.primary.addr with
      | none => simp [hnone]
      | some j =>
        by_cases hown : j = own
        · simp [hnone, hown]
        · simp [hnone, hown]

theorem task_manager {task : Task} : r.task .manager = some task ↔ r.manager = .leading task := by
  unfold Replica.task
  cases r.manager with
  | leading task' => simp
  | _ => simp

/-- What the manager's thread relies on, wherever it is. -/
structure Steady (cfg : Config) (own : Nat) (r : Replica) : Prop where
  waits : r.manager = .top → r.state.mode = .manager →
    r.state.isLeader = false ∧ Unreached cfg own r.link r.state.view
  leads : ∀ task, r.manager = .leading task → r.state.mode ≠ .manager
  chosen : ∀ rank, r.manager = .chosen rank → r.link rank = true
  asserts : r.manager ≠ .aborted .leaderDown ∧ r.manager ≠ .aborted .replicaClient

theorem Steady.neverAborts (h : Steady cfg own r) : NeverAborts cfg own r :=
  ⟨fun htop hmode => isLeaderDown_eq_true.mpr (h.waits htop hmode), h.chosen, h.asserts⟩

theorem steady_fresh (link : Nat → Bool) : Steady cfg own (fresh link) where
  waits _ _ := ⟨rfl, Or.inl rfl⟩
  leads task h := by cases h
  chosen rank h := by cases h
  asserts := ⟨nofun, nofun⟩

/-- A state of the manager's thread that has nothing to rely on. -/
theorem Steady.of_state {st : ReplicaState} {m : Phase} {listener : Option Task}
    {link : Nat → Bool} (htop : m = .top → st.mode ≠ .manager)
    (hleads : ∀ task, m = .leading task → st.mode ≠ .manager)
    (hchosen : ∀ rank, m = .chosen rank → link rank = true)
    (hasserts : m ≠ .aborted .leaderDown ∧ m ≠ .aborted .replicaClient) :
    Steady cfg own ⟨st, m, listener, link⟩ :=
  ⟨fun h hmode => absurd hmode (htop h), hleads, hchosen, hasserts⟩

theorem Steady.turn (h : Steady cfg own r) (htop : r.manager = .top) :
    Steady cfg own (r.turn cfg own) := by
  unfold Replica.turn
  by_cases hmode : r.state.mode = .manager
  · rw [if_pos hmode, isLeaderDown_eq_true.mpr (h.waits htop hmode)]
    exact .of_state nofun nofun nofun ⟨nofun, nofun⟩
  · rw [if_neg hmode]
    cases hdown : isLeaderDown cfg own (r.reachable cfg) r.state with
    | none => exact .of_state nofun nofun nofun ⟨nofun, nofun⟩
    | some down =>
      cases down with
      | false => exact h
      | true =>
        refine ⟨fun _ _ => isLeaderDown_eq_true.mp hdown, fun task hl => ?_, fun rank hc => ?_, ?_⟩
        · exact absurd (htop.symm.trans hl) nofun
        · exact absurd (htop.symm.trans hc) nofun
        · exact h.asserts

/-- The scan ends at the replica itself or at one there is a client for. -/
theorem settles_cases {i rank : Nat} (h : r.settles cfg own i = some rank) :
    rank = own ∨ r.link rank = true := by
  unfold settles at h
  split_ifs at h with hi hup hlt
  · obtain rfl := Option.some.inj h
    exact Or.inr hup.2
  · exact Or.inl (Option.some.inj h).symm
  · exact Or.inl (Option.some.inj h).symm

theorem Steady.settled {i rank : Nat} (hrank : r.settles cfg own i = some rank) :
    Steady cfg own (r.settled cfg own rank) := by
  unfold Replica.settled
  split_ifs with hown
  · exact .of_state nofun (fun _ _ => nofun) nofun ⟨nofun, nofun⟩
  · refine .of_state nofun nofun (fun rank' hrank' => ?_) ⟨nofun, nofun⟩
    obtain rfl := Phase.chosen.inj hrank'
    exact (settles_cases hrank).resolve_left hown

/-- A channel goes down or comes up. -/
theorem Steady.link (h : Steady cfg own r) {rank : Nat} {up : Bool}
    (hok : Undisturbed cfg own r (.link rank up)) :
    Steady cfg own { r with link := Function.update r.link rank up } where
  waits htop hmode := by
    obtain ⟨hleader, hview⟩ := h.waits htop hmode
    refine ⟨hleader, ?_⟩
    rcases hview with hnone | ⟨j, hj, hown, hdown⟩
    · exact Or.inl hnone
    · cases up with
      | false =>
        refine Or.inr ⟨j, hj, hown, ?_⟩
        show Function.update r.link rank false j = false
        rw [Function.update_apply]
        split_ifs
        · rfl
        · exact hdown
      | true =>
        rcases hok htop hmode with hnone | hother
        · exact Or.inl hnone
        · refine Or.inr ⟨j, hj, hown, ?_⟩
          show Function.update r.link rank true j = false
          rw [Function.update_of_ne]
          · exact hdown
          · rintro rfl
            exact hother hj
  leads := h.leads
  chosen rank' hrank' := by
    have hlink := h.chosen rank' hrank'
    show Function.update r.link rank up rank' = true
    rw [Function.update_apply]
    split_ifs with heq
    · subst heq
      cases up with
      | false => exact absurd hrank' hok
      | true => rfl
    · exact hlink
  asserts := h.asserts

/-- The listener has served a call, or another thread has set a flag. -/
theorem Steady.serve (h : Steady cfg own r) {st : ReplicaState} {listener : Option Task}
    (hwaits : r.manager = .top → st.mode = .manager →
      st.isLeader = false ∧ Unreached cfg own r.link st.view)
    (hmode : st.mode = .manager → r.state.mode = .manager) :
    Steady cfg own ⟨st, r.manager, listener, r.link⟩ where
  waits := hwaits
  leads task htask hcon := h.leads task htask (hmode hcon)
  chosen := h.chosen
  asserts := h.asserts

/-- A thread that has made the replica a leader goes on. -/
theorem Steady.setTask (h : Steady cfg own r) {t : Thread} {old : Task} (hold : r.task t = some old)
    (task : Option Task) : Steady cfg own (r.setTask t task) := by
  cases t with
  | client => cases hold
  | listener => exact h.serve h.waits id
  | manager =>
    have hmode : r.state.mode ≠ .manager := h.leads old (task_manager.mp hold)
    cases task with
    | none => exact .of_state (fun _ => hmode) nofun nofun ⟨nofun, nofun⟩
    | some task => exact .of_state nofun (fun _ _ => hmode) nofun ⟨nofun, nofun⟩

theorem Moves.steady {l : Label} (h : Moves cfg own r l r') (hok : Undisturbed cfg own r l)
    (hr : Steady cfg own r) : Steady cfg own r' := by
  cases h with
  | link => exact hr.link hok
  | turns htop => exact hr.turn htop
  | settles _ hrank => exact Steady.settled hrank
  | passes _ _ => exact .of_state nofun nofun nofun ⟨nofun, nofun⟩
  | calls _ _ => exact .of_state nofun nofun nofun ⟨nofun, nofun⟩
  | @finds rank hchosen hdown =>
    rw [hr.chosen rank hchosen] at hdown
    cases hdown
  | @notified rank succeed hnotifying =>
    refine .of_state (fun _ => ?_) nofun nofun ⟨nofun, nofun⟩
    unfold ReplicaState.notified
    cases succeed <;> exact nofun
  | newView _ _ => exact hr.serve (fun htop hmode => ⟨rfl, hok htop hmode⟩) id
  | refuses _ => exact hr
  | promoted _ _ _ => exact hr.serve (fun _ => nofun) nofun
  | replicated htask => exact hr.setTask htask _
  | initialized htask => exact hr.setTask htask _
  | @marked t _ htask =>
    have hset := hr.setTask htask none
    cases t <;> exact ⟨hset.waits, hset.leads, hset.chosen, hset.asserts⟩
  | dies => exact .of_state nofun nofun nofun ⟨nofun, nofun⟩
  | abandons _ => exact hr.serve hr.waits id

end Invariant

/-- While nothing comes between what the manager has seen and what it relies on,
    no assertion of `NotifyNewLeader` fails. -/
theorem neverAborts_reachable (cfg : Config) (own : Nat) (r : Replica)
    (h : (lts cfg own).Reach (Undisturbed cfg own) r) : NeverAborts cfg own r := by
  have hsteady : Steady cfg own r := by
    refine h.invariant (I := Steady cfg own) ?_ ?_
    · rintro r ⟨link, rfl⟩
      exact steady_fresh link
    · intro r r' l _ hr hok hstep
      exact (step_moves hstep).steady hok hr
  exact hsteady.neverAborts

/-- The second replica has the first one take the leadership, follows it, loses
    it, and becomes the leader itself. -/
def takesOver : List Label :=
  [.run, .scan, .initView, .notified true, .newView (View.fresh.ledBy twoReplicas 0),
    .link 0 false, .run,
    .run, .scan, .scan, .scan, .replicated .manager, .initialized .manager, .mark .manager]

theorem neverAborts_takesOver : ∃ r, (lts twoReplicas 1).exec (Undisturbed twoReplicas 1)
    takesOver (fresh fun _ => true) = some r ∧ r.state.isLeader = true ∧
      r.state.isInitialized = true ∧ NeverAborts twoReplicas 1 r := by
  have hrun : ∃ r, (lts twoReplicas 1).exec (Undisturbed twoReplicas 1) takesOver
      (fresh fun _ => true) = some r ∧ r.state.isLeader = true ∧
        r.state.isInitialized = true := ⟨_, rfl, rfl, rfl⟩
  obtain ⟨r, hr, hleader, hinit⟩ := hrun
  exact ⟨r, hr, hleader, hinit,
    neverAborts_reachable twoReplicas 1 r (Lts.Reach.exec (.init ⟨_, rfl⟩) hr)⟩

/-- The leader comes back while the manager sleeps, and announces itself. -/
def comesBack : List Label :=
  [.run, .scan, .initView, .notified true, .newView (View.fresh.ledBy twoReplicas 0),
    .link 0 false, .run,
    .link 0 true, .newView (View.fresh.ledBy twoReplicas 0), .run]

theorem not_neverAborts : ¬ ∀ r, (lts twoReplicas 1).Reach (fun _ _ => True) r →
    NeverAborts twoReplicas 1 r := by
  intro hall
  have hrun : ∃ r, (lts twoReplicas 1).exec (fun _ _ => True) comesBack (fresh fun _ => true) =
      some r ∧ r.manager = .aborted .leaderDown := ⟨_, rfl, rfl⟩
  obtain ⟨r, hr, haborted⟩ := hrun
  exact (hall r (Lts.Reach.exec (.init ⟨_, rfl⟩) hr)).asserts.1 haborted

end Replica

end Paxos

end SimpleChubby
