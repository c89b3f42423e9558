import SimpleChubby.Paxos.ViewChange
import SimpleChubby.Leader.Frame

/-!
# The service on a replica that is promoted

`startSession` asks the replica whether it is a leader and initialised. The leader
flag goes with the leadership and `isInitialized` with the process: it is set
after the first `Initialize` and never cleared. So a replica that is promoted
again serves what the last leadership has left, and `Initialize` wipes out the
sessions it has accepted meanwhile.
-/

namespace SimpleChubby

namespace Paxos

/-! ## A replica with its service -/

/-- `PaxosLib::isLeaderAndInitialized`. -/
def ReplicaState.isLeaderAndInitialized (st : ReplicaState) : Bool :=
  st.isLeader && st.isInitialized

/-- The service of a replica. What `execute` does depends on the replica too. -/
def replicaService {δ : Type}
    (execute : ReplicaState → ServerPaxosParam → Prog Fault δ ServerPaxosResult)
    (strHash : Str → UInt64) (stillNamed : FdRecord → Bool) (st : ReplicaState) : Service δ where
  db := serverDbPaxos ⟨execute st, fun _ => st.isLeaderAndInitialized⟩
  strHash := strHash
  stillNamed := stillNamed

/-- A replica and the service on it, with a record of its leaderships: how many
    there have been, whether `Initialize` has completed in the last one, and the
    sessions accepted, with their clients and the leadership each was accepted in. -/
structure Served (δ : Type) where
  replica : Replica
  leader : Leader δ
  leadership : Nat
  initialized : Bool
  accepted : List (SessionId × Str × Nat)

namespace Served

variable {δ : Type} (cfg : Config) (own : Nat) (E : ReplicaState → Service δ)

/-- The record after a step of the replica: a leadership begins where the leader
    flag is set. -/
def follow (sv : Served δ) (r : Replica) : Served δ :=
  if sv.replica.state.isLeader = false ∧ r.state.isLeader = true then
    { sv with replica := r, leadership := sv.leadership + 1, initialized := false }
  else { sv with replica := r }

/-- The record after the service has handled an input. -/
def note (sv : Served δ) : Input → List (SessionId × Str × Nat)
  | .rpc session _ (.startSession clientId) =>
    if sv.replica.state.isLeaderAndInitialized then
      (session, clientId, sv.leadership) :: sv.accepted.filter (·.1 != session)
    else sv.accepted
  | .disconnect session => sv.accepted.filter (·.1 != session)
  | _ => sv.accepted

/-- A step of the replica, or an input from the sessions. -/
inductive Label where
  | replica (l : Replica.Label)
  | input (i : Input)
  deriving DecidableEq, Repr

/-- `initializeLeader` of the service is run by a thread of the replica. An
    exception of `getStates` ends the thread's task, with the maps cleared. -/
def step (l : Label) (sv : Served δ) : Option (Served δ) :=
  match l with
  | .replica (.initialized t) =>
    match handle (E sv.replica.state) .initializeLeader sv.leader with
    | .ret _ leader =>
      (sv.replica.step cfg own (.initialized t)).map fun r =>
        { sv with replica := r, leader := leader, initialized := true }
    | .stop .uncaught leader =>
      if sv.replica.task t = some .initializing then
        (sv.replica.step cfg own (.throws t)).map fun r =>
          { sv with replica := r, leader := leader }
      else none
    | .stop _ _ => none
  | .replica (.throws t) =>
    if sv.replica.task t = some .initializing then none
    else (sv.replica.step cfg own (.throws t)).map sv.follow
  | .replica l => (sv.replica.step cfg own l).map sv.follow
  | .input i =>
    if sv.replica.alive ∧ i ≠ .initializeLeader then
      (Leader.step (E sv.replica.state) i sv.leader).map fun leader =>
        { sv with leader := leader, accepted := sv.note i }
    else none

/-- The start of the process. -/
def fresh (link : Nat → Bool) (db : δ) (masterSequenceNumber : UInt64) : Served δ :=
  ⟨.fresh link, .fresh db masterSequenceNumber, 0, false, []⟩

/-- The runs of a replica with its service, from the start of the process. -/
def lts (db : δ) (masterSequenceNumber : UInt64) : Lts (Served δ) Label where
  init sv := ∃ link, sv = fresh link db masterSequenceNumber
  step := step cfg own E

/-- A leader that says it is initialised has been in this leadership, and the
    sessions it has accepted in this leadership are still registered. -/
structure FreshlyInitialized (sv : Served δ) : Prop where
  completed : sv.replica.state.isLeaderAndInitialized = true → sv.initialized = true
  registered : ∀ s c k, (s, c, k) ∈ sv.accepted → k = sv.leadership →
    sv.leader.session2clientMap.find s = some c

/-- Whether a step makes the replica a leader. -/
def promotes (r : Replica) : Replica.Label → Bool
  | .scan =>
    match r.manager with
    | .scanning i => r.settles cfg own i == some own
    | _ => false
  | .promote => !r.state.isLeader
  | _ => false

/-- The replica is promoted only as long as it has not been initialised, and no
    thread has still to complete an `initializeLeader`. -/
def PromotedOnce (sv : Served δ) : Label → Prop
  | .replica l => promotes cfg own sv.replica l = true →
      sv.replica.state.isInitialized = false ∧
        sv.replica.task .manager = none ∧ sv.replica.task .listener = none
  | _ => True

instance (sv : Served δ) (l : Label) : Decidable (PromotedOnce cfg own sv l) := by
  unfold PromotedOnce
  split <;> infer_instance

/-! ## What a step can do -/

/-- One constructor for each way through the step function. -/
inductive Moves (sv : Served δ) : Label → Served δ → Prop
  | initialized {t : Thread} {leader : Leader δ} {r : Replica} :
      handle (E sv.replica.state) .initializeLeader sv.leader = .ret () leader →
      sv.replica.step cfg own (.initialized t) = some r →
      Moves sv (.replica (.initialized t))
        { sv with replica := r, leader := leader, initialized := true }
  /-- An exception of `getStates` ends the task. -/
  | uncaught {t : Thread} {leader : Leader δ} {r : Replica} :
      sv.replica.task t = some .initializing → sv.replica.step cfg own (.throws t) = some r →
      Moves sv (.replica (.initialized t)) { sv with replica := r, leader := leader }
  | goes {l : Replica.Label} {r : Replica} : (∀ t, l ≠ .initialized t) →
      sv.replica.step cfg own l = some r → Moves sv (.replica l) (sv.follow r)
  | handles {i : Input} {leader : Leader δ} : i ≠ .initializeLeader →
      Handles (E sv.replica.state) sv.leader i (.ret () leader) →
      Moves sv (.input i) { sv with leader := leader, accepted := sv.note i }

/-! ## The invariant -/

/-- One thread at most makes the replica a leader; once the flag is set it has
    done so, and only then are sessions accepted. -/
structure Ok (sv : Served δ) : Prop where
  one : ∀ t t', sv.replica.task t ≠ none → sv.replica.task t' ≠ none → t = t'
  marking : ∀ t, sv.replica.task t = some .marking → sv.initialized = true
  done : sv.replica.state.isInitialized = true →
    sv.initialized = true ∧ ∀ t, sv.replica.task t = none
  accepted : ∀ s c k, (s, c, k) ∈ sv.accepted →
    sv.replica.state.isInitialized = true ∧ sv.leader.session2clientMap.find s = some c

/-- A step of the replica that makes it no leader and completes nothing. -/
structure Calm (r r' : Replica) : Prop where
  leader : r'.state.isLeader = true → r.state.isLeader = true
  initialized : r'.state.isInitialized = r.state.isInitialized
  tasks : ∀ t, r'.task t = none ∨ r'.task t = r.task t

section Invariant

variable {cfg own} {sv sv' : Served δ} {r r' : Replica} {t : Thread}

theorem Ok.freshlyInitialized (h : sv.Ok) : sv.FreshlyInitialized where
  completed hflags := (h.done (Bool.and_eq_true_iff.mp hflags).2).1
  registered s c k hmem _ := (h.accepted s c k hmem).2

theorem ok_fresh (link : Nat → Bool) (db : δ) (masterSequenceNumber : UInt64) :
    Ok (fresh link db masterSequenceNumber) where
  one t t' ht := by cases t <;> exact absurd rfl ht
  marking t ht := by cases t <;> cases ht
  done h := by cases h
  accepted s c k hmem := absurd hmem List.not_mem_nil

/-- While the flag is not set nobody has been accepted. -/
theorem Ok.unserved (h : sv.Ok) (hflag : sv.replica.state.isInitialized = false) :
    sv.accepted = [] := by
  refine List.eq_nil_iff_forall_not_mem.mpr fun ⟨s, c, k⟩ hmem => ?_
  rw [(h.accepted s c k hmem).1] at hflag
  cases hflag

/-- While a thread has something to do the flag is not set, and nobody has been accepted. -/
theorem Ok.busy (h : sv.Ok) (ht : sv.replica.task t ≠ none) :
    sv.replica.state.isInitialized = false ∧ sv.accepted = [] := by
  have hflag : sv.replica.state.isInitialized = false := by
    by_contra hcon
    exact ht ((h.done (Bool.not_eq_false _ ▸ hcon)).2 t)
  exact ⟨hflag, h.unserved hflag⟩

/-- A step that makes the replica no leader leaves the record. -/
theorem follow_of_leader (hleads : r.state.isLeader = true → sv.replica.state.isLeader = true) :
    sv.follow r = { sv with replica := r } := by
  unfold follow
  rw [if_neg]
  rintro ⟨hnot, hleader⟩
  rw [hleads hleader] at hnot
  cases hnot

theorem Ok.calm (h : sv.Ok) (hcalm : Calm sv.replica r) : Ok { sv with replica := r } where
  one t t' ht ht' := by
    refine h.one t t' ?_ ?_
    · exact ((hcalm.tasks t).resolve_left ht) ▸ ht
    · exact ((hcalm.tasks t').resolve_left ht') ▸ ht'
  marking t ht := by
    rcases hcalm.tasks t with hnone | hsame
    · cases hnone.symm.trans ht
    · exact h.marking t (hsame.symm.trans ht)
  done hflag := by
    obtain ⟨hinit, hnone⟩ := h.done (hcalm.initialized ▸ hflag)
    refine ⟨hinit, fun t => ?_⟩
    rcases hcalm.tasks t with hgone | hsame
    · exact hgone
    · exact hsame.trans (hnone t)
  accepted s c k hmem := by
    obtain ⟨hflag, hfind⟩ := h.accepted s c k hmem
    exact ⟨hcalm.initialized.trans hflag, hfind⟩

/-- The replica becomes a leader, and a thread begins to announce it. -/
theorem Ok.promoted (h : sv.Ok) (hnone : ∀ t, sv.replica.task t = none)
    (hflag : sv.replica.state.isInitialized = false)
    (hinit : r.state.isInitialized = sv.replica.state.isInitialized)
    (htasks : ∀ t', r.task t' = if t' = t then some .replicating else sv.replica.task t') :
    Ok (sv.follow r) := by
  have htask : ∀ t', r.task t' = if t' = t then some .replicating else none := by
    intro t'
    rw [htasks t', hnone t']
  have hempty := h.unserved hflag
  have hok : ∀ leadership initialized,
      Ok (⟨r, sv.leader, leadership, initialized, sv.accepted⟩ : Served δ) := by
    intro leadership initialized
    refine ⟨fun t₁ t₂ h₁ h₂ => ?_, fun t₁ h₁ => ?_, fun hset => ?_, fun s c k hmem => ?_⟩
    · rw [htask] at h₁ h₂
      have heq₁ : t₁ = t := by
        by_contra hne
        exact h₁ (if_neg hne)
      have heq₂ : t₂ = t := by
        by_contra hne
        exact h₂ (if_neg hne)
      exact heq₁.trans heq₂.symm
    · change r.task t₁ = _ at h₁
      rw [htask] at h₁
      split_ifs at h₁
      cases h₁
    · rw [hinit, hflag] at hset
      cases hset
    · rw [hempty] at hmem
      cases hmem
  unfold follow
  split_ifs
  · exact hok _ _
  · exact hok _ _

/-- A thread goes on, or has come to its end. -/
theorem setTask_task {old : Task} (ht : r.task t = some old) (task : Option Task) (t' : Thread) :
    (r.setTask t task).task t' = if t' = t then task else r.task t' := by
  cases t with
  | client => cases ht
  | listener =>
    cases t' with
    | listener => rfl
    | _ => rfl
  | manager =>
    cases t' with
    | manager =>
      cases task with
      | none => rfl
      | some task => rfl
    | _ => rfl

theorem setTask_state (t : Thread) (task : Option Task) : (r.setTask t task).state = r.state := by
  cases t with
  | _ => rfl

/-- The thread that makes the replica a leader goes on to its next task. -/
theorem Ok.next (h : sv.Ok) {old : Task} (ht : sv.replica.task t = some old) (task : Task)
    (leader : Leader δ) {done : Bool} (hdone : task = .marking → done = true) :
    Ok { sv with replica := sv.replica.setTask t (some task), leader := leader,
                 initialized := done } := by
  have hone : ∀ t', (sv.replica.setTask t (some task)).task t' ≠ none → t' = t := by
    intro t' ht'
    by_contra hne
    rw [setTask_task ht, if_neg hne] at ht'
    exact hne (h.one t' t ht' (ht ▸ nofun))
  obtain ⟨hflag, hempty⟩ := h.busy (ht ▸ nofun : sv.replica.task t ≠ none)
  refine ⟨fun t₁ t₂ h₁ h₂ => (hone t₁ h₁).trans (hone t₂ h₂).symm, fun t₁ h₁ => ?_, fun hset => ?_,
    fun s c k hmem => ?_⟩
  · have heq := hone t₁ (h₁ ▸ nofun)
    change (sv.replica.setTask t (some task)).task t₁ = _ at h₁
    rw [setTask_task ht, if_pos heq] at h₁
    exact hdone (Option.some.inj h₁)
  · change (sv.replica.setTask t (some task)).state.isInitialized = true at hset
    rw [setTask_state, hflag] at hset
    cases hset
  · change _ ∈ sv.accepted at hmem
    rw [hempty] at hmem
    cases hmem

/-- The thread sets `isInitialized`, as the last thing it does. -/
theorem Ok.mark (h : sv.Ok) (ht : sv.replica.task t = some .marking)
    (htasks : ∀ t', r.task t' = (sv.replica.setTask t none).task t') :
    Ok { sv with replica := r } := by
  have hnone : ∀ t', r.task t' = none := by
    intro t'
    rw [htasks t', setTask_task ht]
    split_ifs with heq
    · rfl
    · by_contra hcon
      exact heq (h.one t' t hcon (ht ▸ nofun))
  refine ⟨fun t₁ _ h₁ _ => absurd (hnone t₁) h₁, fun t₁ h₁ => ?_, fun _ => ?_,
    fun s c k hmem => ?_⟩
  · cases (hnone t₁).symm.trans h₁
  · exact ⟨h.marking t ht, hnone⟩
  · change _ ∈ sv.accepted at hmem
    rw [(h.busy (ht ▸ nofun : sv.replica.task t ≠ none)).2] at hmem
    cases hmem

/-- An exception ends the task of a thread; whatever the leader is left with,
    nobody has been accepted yet. -/
theorem Ok.abandon (h : sv.Ok) (ht : sv.replica.task t ≠ none) (hcalm : Calm sv.replica r)
    (leader : Leader δ) : Ok { sv with replica := r, leader := leader } := by
  have hcalmed := h.calm hcalm
  refine ⟨hcalmed.one, hcalmed.marking, hcalmed.done, fun s c k hmem => ?_⟩
  change _ ∈ sv.accepted at hmem
  rw [(h.busy ht).2] at hmem
  cases hmem

/-- An exception leaves the replica what it was, without the thread's task. -/
theorem throws_calm (h : Replica.Moves cfg own r (.throws t) r') : Calm r r' := by
  cases h with
  | dies =>
    refine ⟨id, rfl, fun t => ?_⟩
    cases t with
    | manager => exact Or.inl rfl
    | _ => exact Or.inr rfl
  | abandons _ =>
    refine ⟨id, rfl, fun t => ?_⟩
    cases t with
    | listener => exact Or.inl rfl
    | _ => exact Or.inr rfl

/-- The manager goes from a place where it has no task to another such place. -/
theorem calm_of_manager {st : ReplicaState} {m : Phase} {link : Nat → Bool}
    (hleader : st.isLeader = true → r.state.isLeader = true)
    (hinit : st.isInitialized = r.state.isInitialized) (hm : ∀ task, m ≠ .leading task) :
    Calm r ⟨st, m, r.listener, link⟩ where
  leader := hleader
  initialized := hinit
  tasks t := by
    cases t with
    | manager =>
      refine Or.inl ?_
      cases m with
      | leading task => exact absurd rfl (hm task)
      | _ => rfl
    | _ => exact Or.inr rfl

/-- A turn of the manager's loop changes neither flag. -/
theorem turn_calm (htop : r.manager = .top) : Calm r (r.turn cfg own) := by
  unfold Replica.turn
  split_ifs with hmode
  · split
    · exact calm_of_manager id rfl nofun
    · exact calm_of_manager id rfl nofun
  · split
    · exact calm_of_manager id rfl nofun
    · exact calm_of_manager id rfl (fun task => by rw [htop]; exact nofun)
    · exact ⟨id, rfl, fun t => Or.inr rfl⟩

theorem settled_task :
    ∀ t', ({ r with state := r.state.lead cfg own, manager := .leading .replicating } :
      Replica).task t' = if t' = .manager then some .replicating else r.task t'
  | .manager => rfl
  | .listener => rfl
  | .client => rfl

end Invariant

section Steps

variable {cfg own} {sv sv' : Served δ} {strHash : Str → UInt64} {stillNamed : FdRecord → Bool}
  {execute : ReplicaState → ServerPaxosParam → Prog Fault δ ServerPaxosResult}

theorem step_moves {l : Label} (h : step cfg own E l sv = some sv') : Moves cfg own E sv l sv' := by
  cases l with
  | input i =>
    dsimp only [step] at h
    split_ifs at h with hi
    obtain ⟨leader, hleader, rfl⟩ := Option.map_eq_some_iff.mp h
    exact .handles hi.2 (step_ends _ hleader)
  | replica l =>
    cases l with
    | initialized t =>
      dsimp only [step] at h
      split at h
      · next leader hhandle =>
        obtain ⟨r, hr, rfl⟩ := Option.map_eq_some_iff.mp h
        exact .initialized hhandle hr
      · next leader hhandle =>
        split_ifs at h with htask
        obtain ⟨r, hr, rfl⟩ := Option.map_eq_some_iff.mp h
        exact .uncaught htask hr
      · cases h
    | throws t =>
      dsimp only [step] at h
      split_ifs at h with htask
      obtain ⟨r, hr, rfl⟩ := Option.map_eq_some_iff.mp h
      exact .goes nofun hr
    | _ =>
      obtain ⟨r, hr, rfl⟩ := Option.map_eq_some_iff.mp h
      exact .goes nofun hr

theorem PromotedOnce.idle {l : Replica.Label} (h : PromotedOnce cfg own sv (.replica l))
    (hpromotes : promotes cfg own sv.replica l = true) :
    sv.replica.state.isInitialized = false ∧ ∀ t, sv.replica.task t = none := by
  obtain ⟨hflag, hmanager, hlistener⟩ := h hpromotes
  refine ⟨hflag, fun t => ?_⟩
  cases t with
  | manager => exact hmanager
  | listener => exact hlistener
  | client => rfl

/-- A step of the replica other than the completion of `Initialize`. -/
theorem Ok.goes (h : sv.Ok) {l : Replica.Label} {r : Replica} (hl : ∀ t, l ≠ .initialized t)
    (hok : PromotedOnce cfg own sv (.replica l)) (hmoves : Replica.Moves cfg own sv.replica l r) :
    Ok (sv.follow r) := by
  have hcalm : Calm sv.replica r → Ok (sv.follow r) := by
    intro hcalm
    rw [follow_of_leader hcalm.leader]
    exact h.calm hcalm
  cases hmoves with
  | link => exact hcalm ⟨id, rfl, fun _ => Or.inr rfl⟩
  | turns htop => exact hcalm (turn_calm htop)
  | @settles i rank hscan hrank =>
    by_cases hown : rank = own
    · have hpromotes : promotes cfg own sv.replica .scan = true := by
        simp [promotes, hscan, hrank, hown]
      obtain ⟨hflag, hnone⟩ := hok.idle hpromotes
      rw [show sv.replica.settled cfg own rank = _ from if_pos hown]
      exact h.promoted hnone hflag rfl settled_task
    · rw [show sv.replica.settled cfg own rank = _ from if_neg hown] at hcalm ⊢
      exact hcalm (calm_of_manager id rfl nofun)
  | passes _ _ => exact hcalm (calm_of_manager id rfl nofun)
  | calls _ _ => exact hcalm (calm_of_manager id rfl nofun)
  | finds _ _ => exact hcalm (calm_of_manager id rfl nofun)
  | @notified rank succeed _ =>
    refine hcalm (calm_of_manager ?_ ?_ nofun)
    · unfold ReplicaState.notified
      split_ifs
      · exact id
      · exact nofun
    · unfold ReplicaState.notified
      split_ifs
      · rfl
      · rfl
  | newView _ _ => exact hcalm ⟨nofun, rfl, fun _ => Or.inr rfl⟩
  | refuses _ => exact hcalm ⟨id, rfl, fun _ => Or.inr rfl⟩
  | promoted _ _ hleader =>
    have hpromotes : promotes cfg own sv.replica .promote = true := by
      simp [promotes, hleader]
    obtain ⟨hflag, hnone⟩ := hok.idle hpromotes
    refine h.promoted (t := .listener) hnone hflag rfl fun t' => ?_
    cases t' with
    | _ => rfl
  | @replicated t ht =>
    rw [follow_of_leader (by rw [setTask_state]; exact id)]
    exact h.next ht .initializing sv.leader nofun
  | @initialized t _ => exact absurd rfl (hl t)
  | @marked t _ ht =>
    let r : Replica := { sv.replica.setTask t none with
      state := { sv.replica.state with isInitialized := true } }
    have hsame : sv.follow r = { sv with replica := r } := follow_of_leader id
    rw [hsame]
    refine h.mark ht fun t' => ?_
    cases t' with
    | _ => rfl
  | dies =>
    have hdies : Replica.Moves cfg own sv.replica (.throws .manager) _ := .dies
    exact hcalm (throws_calm hdies)
  | abandons ht =>
    have habandons : Replica.Moves cfg own sv.replica (.throws .listener) _ := .abandons ht
    exact hcalm (throws_calm habandons)

/-- A session is accepted, leaves, or sends something else. -/
theorem Ok.handles (h : sv.Ok) {i : Input} {leader : Leader δ} (hi : i ≠ .initializeLeader)
    (hends : Handles (replicaService execute strHash stillNamed sv.replica.state) sv.leader i
      (.ret () leader)) :
    Ok { sv with leader := leader, accepted := sv.note i } := by
  refine ⟨h.one, h.marking, h.done, fun s c k hmem => ?_⟩
  change (s, c, k) ∈ sv.note i at hmem
  -- what is noted of the other sessions stays
  have hold : i.registers s = false → (s, c, k) ∈ sv.accepted →
      sv.replica.state.isInitialized = true ∧ leader.session2clientMap.find s = some c := by
    intro hother hmem
    obtain ⟨hflag, hfind⟩ := h.accepted s c k hmem
    exact ⟨hflag, hends.registered hother hfind⟩
  cases i with
  | initializeLeader => exact absurd rfl hi
  | disconnect session =>
    obtain ⟨hmem, hne⟩ := List.mem_filter.mp hmem
    exact hold (beq_eq_false_iff_ne.mpr (Ne.symm (bne_iff_ne.mp hne))) hmem
  | rpc session x request =>
    cases request with
    | startSession clientId =>
      cases hends with
      | startSession ho =>
        cases ho with
        | refused hrefused =>
          have hflags : sv.replica.state.isLeaderAndInitialized = false := hrefused
          simp only [note, hflags, Bool.false_eq_true, if_false] at hmem
          exact h.accepted s c k hmem
        | started hstarted =>
          have hflags : sv.replica.state.isLeaderAndInitialized = true := hstarted
          simp only [note, hflags, if_true, List.mem_cons] at hmem
          have hset : (sv.replica.state.isLeader && sv.replica.state.isInitialized) = true := hflags
          rcases hmem with heq | hmem
          · obtain ⟨rfl, rfl, rfl⟩ := heq
            refine ⟨(Bool.and_eq_true_iff.mp hset).2, ?_⟩
            show (sv.leader.session2clientMap.set s c).find s = some c
            rw [UMap.find_set, if_pos rfl]
          · obtain ⟨hmem, hne⟩ := List.mem_filter.mp hmem
            obtain ⟨hinit, hfind⟩ := h.accepted s c k hmem
            refine ⟨hinit, ?_⟩
            show (sv.leader.session2clientMap.set session clientId).find s = some c
            rw [UMap.find_set, if_neg (by simpa using hne)]
            exact hfind
    | _ => exact hold rfl hmem

theorem Moves.ok {l : Label}
    (h : Moves cfg own (replicaService execute strHash stillNamed) sv l sv')
    (hok : PromotedOnce cfg own sv l) (hsv : sv.Ok) : sv'.Ok := by
  cases h with
  | @initialized t leader r _ hstep =>
    cases Replica.step_moves hstep with
    | initialized ht => exact hsv.next ht .marking leader fun _ => rfl
  | @uncaught t leader r ht hstep =>
    exact hsv.abandon (ht ▸ nofun : sv.replica.task t ≠ none)
      (throws_calm (Replica.step_moves hstep)) leader
  | goes hl hstep => exact hsv.goes hl hok (Replica.step_moves hstep)
  | handles hi hends => exact hsv.handles hi hends

end Steps

end Served

/-- A replica that is promoted only while it has not been initialised serves only
    what has been initialised in its leadership, and keeps the sessions it accepts
    in it. -/
theorem freshlyInitialized_reachable {δ : Type} (cfg : Config) (own : Nat)
    (execute : ReplicaState → ServerPaxosParam → Prog Fault δ ServerPaxosResult)
    (strHash : Str → UInt64) (stillNamed : FdRecord → Bool) (db : δ)
    (masterSequenceNumber : UInt64) (sv : Served δ)
    (h :
      (Served.lts cfg own (replicaService execute strHash stillNamed) db masterSequenceNumber).Reach
      (Served.PromotedOnce cfg own) sv) : sv.FreshlyInitialized := by
  have hok : sv.Ok := by
    refine h.invariant (I := Served.Ok) ?_ ?_
    · rintro sv ⟨link, rfl⟩
      exact Served.ok_fresh link db masterSequenceNumber
    · intro sv sv' l _ hsv hok hstep
      exact (Served.step_moves _ hstep).ok hok hsv
  exact hok.freshlyInitialized

/-- Where the flag is still set, a promotion is answered by what the last
    leadership has left. -/
theorem Served.stale {δ : Type} {sv : Served δ} {r : Replica}
    (hnot : sv.replica.state.isLeader = false) (hleads : r.state.isLeader = true)
    (hflag : r.state.isInitialized = true) : ¬ (sv.follow r).FreshlyInitialized := by
  intro hfresh
  have hfollow : sv.follow r = { sv with replica := r, leadership := sv.leadership + 1,
                                         initialized := false } := if_pos ⟨hnot, hleads⟩
  rw [hfollow] at hfresh
  cases hfresh.completed (Bool.and_eq_true_iff.mpr ⟨hleads, hflag⟩)

/-- A service whose every command is refused by the database. -/
def refusingService : ReplicaState → Service Store :=
  replicaService (fun _ => (leaderPaxos .refusing fun _ => 0).execute) (fun _ => 0) inlineNamed

/-- The second replica takes the leadership, and accepts a session. -/
def accepts : List Served.Label :=
  Replica.takesOver.map .replica ++ [.input (.rpc 1 1 (.startSession ['1']))]

theorem freshlyInitialized_accepts : ∃ sv,
    (Served.lts twoReplicas 1 refusingService Store.empty 0).exec
      (Served.PromotedOnce twoReplicas 1) accepts (.fresh (fun _ => true) Store.empty 0) = some sv ∧
      sv.accepted = [(1, ['1'], 1)] ∧ sv.FreshlyInitialized := by
  have hrun : ((Served.lts twoReplicas 1 refusingService Store.empty 0).exec
      (Served.PromotedOnce twoReplicas 1) accepts (.fresh (fun _ => true) Store.empty 0)).map
        (·.accepted) = some [(1, ['1'], 1)] := rfl
  obtain ⟨sv, hsv, haccepted⟩ := Option.map_eq_some_iff.mp hrun
  exact ⟨sv, hsv, haccepted,
    freshlyInitialized_reachable twoReplicas 1 _ _ _ Store.empty 0 sv (.exec (.init ⟨_, rfl⟩) hsv)⟩

/-- A replica is made a leader, loses the leadership and is given it again. A session
    starts before the second `Initialize`, which wipes it out. -/
def wipesOut : List Served.Label :=
  [.replica .promote, .replica (.replicated .listener), .replica (.initialized .listener),
    .replica (.mark .listener), .replica (.newView (View.fresh.ledBy twoReplicas 0)),
      .replica .promote,
    .input (.rpc 1 1 (.startSession ['1'])), .replica (.replicated .listener),
    .replica (.initialized .listener)]

theorem not_freshlyInitialized :
    ¬ ∀ sv, (Served.lts twoReplicas 1 refusingService Store.empty 0).Reach (fun _ _ => True) sv →
      sv.FreshlyInitialized := by
  intro hall
  have hrun : ((Served.lts twoReplicas 1 refusingService Store.empty 0).exec
      (fun _ _ => True) wipesOut (.fresh (fun _ => true) Store.empty 0)).map
        (fun sv => (sv.accepted, sv.leadership, sv.leader.session2clientMap.find 1)) =
      some ([(1, ['1'], 2)], 2, none) := rfl
  obtain ⟨sv, hsv, hends⟩ := Option.map_eq_some_iff.mp hrun
  have haccepted : sv.accepted = [(1, ['1'], 2)] := congrArg (·.1) hends
  have hleadership : sv.leadership = 2 := congrArg (·.2.1) hends
  have hgone : sv.leader.session2clientMap.find 1 = none := congrArg (·.2.2) hends
  have hfind := (hall sv (.exec (.init ⟨_, rfl⟩) hsv)).registered 1 ['1'] 2
    (haccepted ▸ List.mem_singleton.mpr rfl) hleadership.symm
  rw [hgone] at hfind
  cases hfind

end Paxos

end SimpleChubby
