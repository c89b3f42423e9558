import Mathlib.Order.Bounds.Basic
import SimpleChubby.Lib.LockTrace
import SimpleChubby.Lib.Prog
import SimpleChubby.Paxos.Replica

/-!
# The clients of the other replicas

`getReplicaClient` returns a client with its lock held, and `releaseReplicaClient`
releases it (`paxos/replica_client_set.cc`). The functions that call the other
replicas are modelled here with these locks. Whether there is a client is asked
anew at each look, and a remote call returns or throws, as their arguments say.
-/

namespace SimpleChubby

namespace Paxos

/-- How a function ends that does not return. -/
inductive Exit where
  | exception
  | assertion
  deriving DecidableEq, Repr

/-- A thread of a replica: the state it has access to, and what it has done to the
    locks of `replica_client_list_`. -/
structure Access where
  state : ReplicaState
  locks : List (LockAction Nat)

/-- The locks after some more actions. -/
def Access.acted (s : Access) (l : List (LockAction Nat)) : Access :=
  { s with locks := s.locks ++ l }

/-- The first argument of `replicate`: `vs.ts` and the request. -/
structure ReplicateArg where
  ts : Nat
  request : Str

namespace ReplicaClientSet

section Functions

variable (cfg : Config) (own : Nat)

/-- Whether `replica_client_list_` has an entry: one for each other replica. -/
def hasEntry (rank : Nat) : Bool := decide (rank < cfg.getMaxNumClient ∧ rank ≠ own)

/-- `getReplicaClient`, with its assertion. The lock stays held where there is a client. -/
def getReplicaClient (connected : Bool) (rank : Nat) : Prog Exit Access Bool := do
  if hasEntry cfg own rank then
    Prog.modify (·.acted [.lock rank])
    if connected then return true
    else
      Prog.modify (·.acted [.unlock rank])
      return false
  else Prog.halt .assertion

/-- `releaseReplicaClient`. -/
def releaseReplicaClient (rank : Nat) : Prog Exit Access Unit := do
  if hasEntry cfg own rank then Prog.modify (·.acted [.unlock rank])
  else Prog.halt .assertion

/-- A call that returns, or throws where it has no result. -/
def invoke {α : Type} : Option α → Prog Exit Access α
  | some result => pure result
  | none => Prog.halt .exception

variable (connected : Nat → Bool)

/-- The body of the loop in `replicateCommand`. The result of the call is ignored. -/
def replicateTo (answers : ReplicateArg → Nat → Bool) (command : ReplicateArg) (i : Nat) :
    Prog Exit Access Unit := do
  if i ≠ own then
    if ← getReplicaClient cfg own (connected i) i then
      invoke (if answers command i then some () else none)
      releaseReplicaClient cfg own i

/-- The loop in `replicateCommand`, in both overloads. -/
def broadcast (answers : ReplicateArg → Nat → Bool) (command : ReplicateArg) :
    Prog Exit Access Unit :=
  Prog.forEach (replicateTo cfg own connected answers command) (List.range cfg.getMaxNumClient)

/-- `replicateCommand` of an `init_view_request`, which `xdrToMsg` encodes. -/
def replicateView (answers : ReplicateArg → Nat → Bool) (xdrToMsg : View → Str) (newview : View) :
    Prog Exit Access Unit :=
  broadcast cfg own connected answers ⟨0, xdrToMsg newview⟩

/-- `replicateCommand` of a user's command; `run` is `Run` of the back store. -/
def replicateCommand (answers : ReplicateArg → Nat → Bool) (run : Str → Option Str)
    (request : Str) : Prog Exit Access Str := do
  broadcast cfg own connected answers ⟨1, request⟩
  invoke (run request)

/-- `isLeaderDown`. -/
def isLeaderDown (leader : Bool) : Prog Exit Access Bool := do
  let st ← Prog.gets Access.state
  if st.isLeader then return false
  else if st.view.primary.addr = [] then return true
  else
    match cfg.getClientUseAddressRank st.view.primary.addr with
    | none => Prog.halt .assertion
    | some leaderRank =>
      if ← getReplicaClient cfg own leader leaderRank then
        releaseReplicaClient cfg own leaderRank
        return false
      else return true

/-- The loop in `getNewLeaderRank`, which stops at the first replica it reaches. -/
def scan : List Nat → Nat → Prog Exit Access Nat
  | [], result => pure result
  | i :: rest, result =>
    if i ≠ own then do
      if ← getReplicaClient cfg own (connected i) i then
        let result := if i < result then i else result
        releaseReplicaClient cfg own i
        return result
      else scan rest result
    else scan rest result

/-- `getNewLeaderRank`. -/
def getNewLeaderRank : Prog Exit Access Nat :=
  scan cfg own connected (List.range cfg.getMaxNumClient) own

/-- The end of `NotifyNewLeader`, where another replica is chosen. `again` tells
    whether there is a client at the second look, and `meanwhile` what other threads do
    to the state while `init_view` runs. -/
def notifyReplica (again : Bool) (initView : Option Bool) (meanwhile : ReplicaState → ReplicaState)
    (rank : Nat) : Prog Exit Access Bool := do
  if ← getReplicaClient cfg own again rank then
    let succeed ← invoke initView
    Prog.modify fun s => { s with state := (meanwhile s.state).notified cfg rank succeed }
    releaseReplicaClient cfg own rank
    return false
  else Prog.halt .assertion

/-- `NotifyNewLeader`. -/
def notifyNewLeader (leader again : Bool) (initView : Option Bool)
    (meanwhile : ReplicaState → ReplicaState) : Prog Exit Access Bool := do
  if ← isLeaderDown cfg own leader then
    let rank ← getNewLeaderRank cfg own connected
    if rank = own then
      Prog.modify fun s => { s with state := s.state.lead cfg own }
      return true
    else notifyReplica cfg own again initView meanwhile rank
  else Prog.halt .assertion

end Functions

/-! ## What the functions do to the locks -/

section Ends

variable {cfg : Config} {own rank : Nat} {connected : Nat → Bool} {s : Access}

@[simp] theorem acted_nil : s.acted [] = s := by
  unfold Access.acted
  rw [List.append_nil]

@[simp] theorem acted_acted (l l' : List (LockAction Nat)) :
    (s.acted l).acted l' = s.acted (l ++ l') := by
  unfold Access.acted
  rw [List.append_assoc]

theorem hasEntry_iff : hasEntry cfg own rank = true ↔ rank < cfg.getMaxNumClient ∧ rank ≠ own :=
  decide_eq_true_iff

/-- A client is returned with its lock held. -/
theorem getReplicaClient_some (h : hasEntry cfg own rank = true) :
    getReplicaClient cfg own true rank s = .ret true (s.acted [.lock rank]) := by
  unfold getReplicaClient
  rw [if_pos h]
  rfl

/-- Without a client the lock is released again. -/
theorem getReplicaClient_none (h : hasEntry cfg own rank = true) :
    getReplicaClient cfg own false rank s = .ret false (s.acted [.lock rank, .unlock rank]) := by
  unfold getReplicaClient
  rw [if_pos h]
  show Outcome.ret false ((s.acted [.lock rank]).acted [.unlock rank]) = _
  rw [acted_acted]
  rfl

theorem getReplicaClient_assertion {up : Bool} (h : hasEntry cfg own rank = false) :
    getReplicaClient cfg own up rank s = .stop .assertion s := by
  unfold getReplicaClient
  rw [if_neg (by simp [h])]
  rfl

theorem releaseReplicaClient_eq (h : hasEntry cfg own rank = true) :
    releaseReplicaClient cfg own rank s = .ret () (s.acted [.unlock rank]) := by
  unfold releaseReplicaClient
  rw [if_pos h]
  rfl

end Ends

/-! ## The election -/

section Election

variable {cfg : Config} {own : Nat} {connected : Nat → Bool} {s : Access}

/-- The replica itself, and those it reaches. -/
def candidates (cfg : Config) (own : Nat) (connected : Nat → Bool) : Set Nat :=
  {rank | rank = own ∨ rank < cfg.getMaxNumClient ∧ connected rank = true}

/-- The replicas of the configuration there is a client for. -/
def reached (cfg : Config) (connected : Nat → Bool) : List Nat :=
  (List.range cfg.getMaxNumClient).filter connected

theorem scan_eq (cfg : Config) (own : Nat) (connected : Nat → Bool) (s : Access) {l : List Nat}
    (hl : ∀ i ∈ l, i < cfg.getMaxNumClient) (result : Nat) :
    ∃ t, LockAction.Balanced t ∧ scan cfg own connected l result s =
      .ret (match l.find? fun i => decide (i ≠ own ∧ connected i = true) with
        | none => result
        | some i => if i < result then i else result) (s.acted t) := by
  induction l generalizing s with
  | nil => exact ⟨[], LockAction.balanced_nil, congrArg _ acted_nil.symm⟩
  | cons i rest ih =>
    have hrest := fun j hj => hl j (List.mem_cons_of_mem _ hj)
    by_cases hown : i = own
    · rw [List.find?_cons_of_neg (by simp [hown]), scan, if_neg (not_not.mpr hown)]
      exact ih s hrest
    · have hentry : hasEntry cfg own i = true := hasEntry_iff.mpr ⟨hl i List.mem_cons_self, hown⟩
      rw [scan, if_pos hown]
      cases hup : connected i with
      | true =>
        rw [List.find?_cons_of_pos (by simp [hown, hup]),
          Prog.bind_of_ret (getReplicaClient_some hentry), if_pos rfl,
          Prog.bind_of_ret (releaseReplicaClient_eq hentry), acted_acted]
        exact ⟨_, LockAction.balanced_pair i, rfl⟩
      | false =>
        obtain ⟨t, ht, heq⟩ := ih (s.acted [.lock i, .unlock i]) hrest
        rw [List.find?_cons_of_neg (by simp [hup]),
          Prog.bind_of_ret (getReplicaClient_none hentry), if_neg Bool.false_ne_true, heq,
          acted_acted]
        exact ⟨_, (LockAction.balanced_pair i).append ht, rfl⟩

/-- The loop returns what `getNewLeaderRank` of the replica is. -/
theorem getNewLeaderRank_eq (cfg : Config) (own : Nat) (connected : Nat → Bool) (s : Access) :
    ∃ t, LockAction.Balanced t ∧ getNewLeaderRank cfg own connected s =
      .ret (Paxos.getNewLeaderRank cfg own (reached cfg connected)) (s.acted t) := by
  obtain ⟨t, ht, heq⟩ := scan_eq cfg own connected s (fun i hi => List.mem_range.mp hi) own
  refine ⟨t, ht, heq.trans ?_⟩
  have hsame : (List.range cfg.getMaxNumClient).find?
      (fun i => decide (i ≠ own ∧ i ∈ reached cfg connected)) =
      (List.range cfg.getMaxNumClient).find? fun i => decide (i ≠ own ∧ connected i = true) := by
    rw [← List.head?_filter, ← List.head?_filter]
    refine congrArg _ (List.filter_congr fun i hi => ?_)
    simp [reached, List.mem_range.mp hi]
  exact congrArg (fun found : Option Nat => Outcome.ret (match found with
    | none => own
    | some i => if i < own then i else own) (s.acted t)) hsame.symm

/-- The first replica the loop reaches is the least one, so the break comes too soon
    for none. -/
theorem isLeast_getNewLeaderRank (cfg : Config) (own : Nat) (connected : Nat → Bool) :
    IsLeast (candidates cfg own connected)
      (Paxos.getNewLeaderRank cfg own (reached cfg connected)) := by
  unfold Paxos.getNewLeaderRank
  cases hfind : (List.range cfg.getMaxNumClient).find?
      fun i => decide (i ≠ own ∧ i ∈ reached cfg connected) with
  | none =>
    refine ⟨Or.inl rfl, fun rank hrank => ?_⟩
    rcases hrank with rfl | ⟨hlt, hup⟩
    · exact Nat.le_refl _
    · have hnone := List.find?_eq_none.mp hfind rank (List.mem_range.mpr hlt)
      by_cases hown : rank = own
      · exact Nat.le_of_eq hown.symm
      · simp [hown, reached, hlt, hup] at hnone
  | some i =>
    obtain ⟨hi, hlt, hfirst⟩ := List.find?_range_eq_some.mp hfind
    obtain ⟨hown, hreached⟩ := of_decide_eq_true hi
    have hup : connected i = true := (List.mem_filter.mp hreached).2
    have hleast : ∀ rank < cfg.getMaxNumClient, connected rank = true → rank ≠ own →
        i ≤ rank := by
      intro rank hrank hconnected hne
      by_contra hcon
      have hnot := hfirst rank (by omega)
      simp [hne, reached, hrank, hconnected] at hnot
    show IsLeast _ (if i < own then i else own)
    split_ifs with hlower
    · refine ⟨Or.inr ⟨List.mem_range.mp hlt, hup⟩, fun rank hrank => ?_⟩
      rcases hrank with rfl | ⟨hrank, hconnected⟩
      · exact Nat.le_of_lt hlower
      · by_cases hne : rank = own
        · omega
        · exact hleast rank hrank hconnected hne
    · refine ⟨Or.inl rfl, fun rank hrank => ?_⟩
      rcases hrank with rfl | ⟨hrank, hconnected⟩
      · exact Nat.le_refl _
      · by_cases hne : rank = own
        · omega
        · have hle := hleast rank hrank hconnected hne
          omega

/-- Every replica chooses the least rank among its own and those it reaches, and two
    that have the same ranks to choose from choose the same. -/
structure ElectsLeast (cfg : Config) : Prop where
  least : ∀ own connected s, ∃ rank s', getNewLeaderRank cfg own connected s = .ret rank s' ∧
    IsLeast (candidates cfg own connected) rank
  agree : ∀ own own' connected connected' s s' rank rank' t t',
    candidates cfg own connected = candidates cfg own' connected' →
    getNewLeaderRank cfg own connected s = .ret rank t →
    getNewLeaderRank cfg own' connected' s' = .ret rank' t' → rank = rank'

theorem electsLeast (cfg : Config) : ElectsLeast cfg := by
  have hleast : ∀ own connected s, ∃ rank s', getNewLeaderRank cfg own connected s = .ret rank s' ∧
      IsLeast (candidates cfg own connected) rank := by
    intro own connected s
    obtain ⟨t, _, heq⟩ := getNewLeaderRank_eq cfg own connected s
    exact ⟨_, _, heq, isLeast_getNewLeaderRank cfg own connected⟩
  refine ⟨hleast, fun own own' connected connected' s s' rank rank' t t' hsame h h' => ?_⟩
  obtain ⟨_, _, heq, hrank⟩ := hleast own connected s
  obtain ⟨_, _, heq', hrank'⟩ := hleast own' connected' s'
  cases heq.symm.trans h
  cases heq'.symm.trans h'
  rw [← hsame] at hrank'
  exact hrank.unique hrank'

end Election

/-! ## The locks at every exit -/

section Exits

variable {α : Type} (cfg : Config) (own : Nat) (connected : Nat → Bool)

/-- Every lock taken since is released, once, and no other lock is. -/
def Settled (s s' : Access) : Prop := ∃ l, s'.locks = s.locks ++ l ∧ LockAction.Balanced l

/-- The function has settled its locks however it ends. -/
def Settles (m : Prog Exit Access α) (s : Access) : Prop :=
  Prog.wp m (fun _ s' => Settled s s') (fun _ s' => Settled s s') s

/-- Every replica that is sent a command comes back to it. -/
def Answered (answers : ReplicateArg → Nat → Bool) (command : ReplicateArg) : Prop :=
  ∀ i < cfg.getMaxNumClient, i ≠ own → connected i = true → answers command i = true

/-- `NotifyNewLeader` goes as far as `init_view`: the leader is down, a replica of a
    lower rank is reached, and there is a client for the one chosen at the second
    look. -/
structure CallsInitView (leader again : Bool) (st : ReplicaState) : Prop where
  follows : st.isLeader = false
  down : st.view.primary.addr = [] ∨ leader = false ∧
    ∃ rank ≠ own, cfg.getClientUseAddressRank st.view.primary.addr = some rank
  lower : ∃ i < own, i < cfg.getMaxNumClient ∧ connected i = true
  again : again = true

variable {cfg own connected} {s : Access} {m : Prog Exit Access α}

theorem settled_acted {l : List (LockAction Nat)} :
    Settled s (s.acted l) ↔ LockAction.Balanced l := by
  constructor
  · rintro ⟨l', hlocks, hbalanced⟩
    rwa [List.append_cancel_left hlocks]
  · exact fun h => ⟨l, rfl, h⟩

theorem settles_of_ret {a : α} {st : ReplicaState} {l : List (LockAction Nat)}
    (h : m s = .ret a { s.acted l with state := st }) : Settles m s ↔ LockAction.Balanced l := by
  unfold Settles Prog.wp
  rw [h]
  exact settled_acted

theorem settles_of_stop {e : Exit} {l : List (LockAction Nat)}
    (h : m s = .stop e (s.acted l)) : Settles m s ↔ LockAction.Balanced l := by
  unfold Settles Prog.wp
  rw [h]
  exact settled_acted

variable {answers : ReplicateArg → Nat → Bool} {command : ReplicateArg}

/-- How the loop over some replicas ends: it is through with its locks settled, or it
    is left in the call of a replica whose lock is held. -/
inductive CommandEnds (own : Nat) (connected : Nat → Bool) (answers : ReplicateArg → Nat → Bool)
    (command : ReplicateArg) (l : List Nat) (s : Access) : Outcome Exit Access Unit → Prop
  | answered {t : List (LockAction Nat)} : LockAction.Balanced t →
      (∀ i ∈ l, i ≠ own → connected i = true → answers command i = true) →
      CommandEnds own connected answers command l s (.ret () (s.acted t))
  | thrown {t : List (LockAction Nat)} {i : Nat} : LockAction.Balanced t → i ∈ l → i ≠ own →
      connected i = true → answers command i = false →
      CommandEnds own connected answers command l s (.stop .exception (s.acted (t ++ [.lock i])))

theorem CommandEnds.passed {l : List Nat}
    (h : ∀ i ∈ l, i ≠ own → connected i = true → answers command i = true) :
    CommandEnds own connected answers command l s (.ret () s) := by
  have hends : CommandEnds own connected answers command l s (.ret () (s.acted [])) :=
    .answered LockAction.balanced_nil h
  rwa [acted_nil] at hends

theorem replicateTo_ends {i : Nat} (hi : i < cfg.getMaxNumClient) :
    CommandEnds own connected answers command [i] s
      (replicateTo cfg own connected answers command i s) := by
  by_cases hown : i = own
  · rw [replicateTo, if_neg (not_not.mpr hown)]
    refine CommandEnds.passed fun j hj hne => ?_
    rw [List.mem_singleton.mp hj] at hne
    exact absurd hown hne
  have hentry : hasEntry cfg own i = true := hasEntry_iff.mpr ⟨hi, hown⟩
  rw [replicateTo, if_pos hown]
  cases hup : connected i with
  | false =>
    rw [Prog.bind_of_ret (getReplicaClient_none hentry)]
    refine .answered (LockAction.balanced_pair i) fun j hj _ hconnected => ?_
    rw [List.mem_singleton.mp hj, hup] at hconnected
    cases hconnected
  | true =>
    rw [Prog.bind_of_ret (getReplicaClient_some hentry), if_pos rfl]
    cases hanswers : answers command i with
    | true =>
      show CommandEnds _ _ _ _ _ _ (releaseReplicaClient cfg own i (s.acted [.lock i]))
      rw [releaseReplicaClient_eq hentry, acted_acted]
      refine .answered (LockAction.balanced_pair i) fun j hj _ _ => ?_
      rw [List.mem_singleton.mp hj]
      exact hanswers
    | false =>
      exact .thrown LockAction.balanced_nil (List.mem_singleton_self i) hown hup hanswers

theorem forEach_replicateTo {l : List Nat} (hl : ∀ i ∈ l, i < cfg.getMaxNumClient) :
    CommandEnds own connected answers command l s
      (Prog.forEach (replicateTo cfg own connected answers command) l s) := by
  induction l generalizing s with
  | nil => exact CommandEnds.passed fun i hi => absurd hi List.not_mem_nil
  | cons i rest ih =>
    have hfirst : CommandEnds own connected answers command [i] s
        (replicateTo cfg own connected answers command i s) :=
      replicateTo_ends (hl i List.mem_cons_self)
    show CommandEnds _ _ _ _ _ _ (Prog.andThen (replicateTo cfg own connected answers command i)
      (fun _ => Prog.forEach (replicateTo cfg own connected answers command) rest) s)
    unfold Prog.andThen
    generalize replicateTo cfg own connected answers command i s = o at hfirst
    cases hfirst with
    | @answered t ht hi =>
      have hrest := ih (s := s.acted t) fun j hj => hl j (List.mem_cons_of_mem _ hj)
      show CommandEnds _ _ _ _ _ _ (Prog.forEach (replicateTo cfg own connected answers command)
        rest (s.acted t))
      generalize Prog.forEach (replicateTo cfg own connected answers command) rest (s.acted t) = o
        at hrest ⊢
      cases hrest with
      | @answered t' ht' hall =>
        rw [acted_acted]
        refine .answered (ht.append ht') fun j hj => ?_
        rcases List.mem_cons.mp hj with rfl | hj
        · exact hi j (List.mem_singleton_self j)
        · exact hall j hj
      | @thrown t' j ht' hj hne hup hthrows =>
        rw [acted_acted, ← List.append_assoc]
        exact .thrown (ht.append ht') (List.mem_cons_of_mem _ hj) hne hup hthrows
    | @thrown t j ht hj hne hup hthrows =>
      rw [List.mem_singleton.mp hj] at hne hup hthrows ⊢
      exact .thrown ht List.mem_cons_self hne hup hthrows

theorem broadcast_ends :
    CommandEnds own connected answers command (List.range cfg.getMaxNumClient) s
      (broadcast cfg own connected answers command s) :=
  forEach_replicateTo fun _ hi => List.mem_range.mp hi

/-- What comes after the loop touches no lock, so the loop decides. -/
theorem settles_broadcast {k : Prog Exit Access α}
    (hk : ∀ s', (∃ a, k s' = .ret a s') ∨ ∃ e, k s' = .stop e s') :
    Settles (broadcast cfg own connected answers command >>= fun _ => k) s ↔
      Answered cfg own connected answers command := by
  have hends : CommandEnds own connected answers command (List.range cfg.getMaxNumClient) s
      (broadcast cfg own connected answers command s) := broadcast_ends
  show Prog.wp (Prog.andThen (broadcast cfg own connected answers command) fun _ => k) _ _ s ↔ _
  unfold Prog.wp Prog.andThen
  generalize broadcast cfg own connected answers command s = o at hends
  cases hends with
  | @answered t ht hall =>
    refine iff_of_true ?_ fun i hi => hall i (List.mem_range.mpr hi)
    rcases hk (s.acted t) with ⟨a, ha⟩ | ⟨e, he⟩
    · simp only [ha]
      exact settled_acted.mpr ht
    · simp only [he]
      exact settled_acted.mpr ht
  | @thrown t i ht hi hne hup hthrows =>
    refine iff_of_false (fun hcon => ht.not_lock i (settled_acted.mp hcon)) fun hcon => ?_
    have hanswers := hcon i (List.mem_range.mp hi) hne hup
    rw [hthrows] at hanswers
    cases hanswers

theorem settles_replicateView (xdrToMsg : View → Str) (newview : View) :
    Settles (replicateView cfg own connected answers xdrToMsg newview) s ↔
      Answered cfg own connected answers ⟨0, xdrToMsg newview⟩ := by
  have hdone : replicateView cfg own connected answers xdrToMsg newview s =
      (broadcast cfg own connected answers ⟨0, xdrToMsg newview⟩ >>= fun _ => pure ()) s := by
    show broadcast cfg own connected answers ⟨0, xdrToMsg newview⟩ s = Prog.andThen _ _ s
    unfold Prog.andThen
    cases broadcast cfg own connected answers ⟨0, xdrToMsg newview⟩ s <;> rfl
  unfold Settles Prog.wp
  rw [hdone]
  exact settles_broadcast fun s' => Or.inl ⟨(), rfl⟩

theorem settles_replicateCommand (run : Str → Option Str) (request : Str) :
    Settles (replicateCommand cfg own connected answers run request) s ↔
      Answered cfg own connected answers ⟨1, request⟩ := by
  refine settles_broadcast fun s' => ?_
  cases run request with
  | some reply => exact Or.inl ⟨reply, rfl⟩
  | none => exact Or.inr ⟨.exception, rfl⟩

theorem rank_lt {address : Str} {rank : Nat} (h : cfg.getClientUseAddressRank address = some rank) :
    rank < cfg.getMaxNumClient := by
  obtain ⟨hlt, _⟩ := List.findIdx?_eq_some_iff_findIdx_eq.mp h
  exact hlt

/-- `isLeaderDown` of the replica, with its locks settled. -/
theorem isLeaderDown_eq (cfg : Config) (own : Nat) (s : Access) (leader : Bool) :
    ∃ t, LockAction.Balanced t ∧ isLeaderDown cfg own leader s =
      match Paxos.isLeaderDown cfg own leader s.state with
      | none => .stop .assertion (s.acted t)
      | some down => .ret down (s.acted t) := by
  have hnone : ∀ {o : Outcome Exit Access Bool} {f : Access → Outcome Exit Access Bool},
      o = f s → ∃ t, LockAction.Balanced t ∧ o = f (s.acted t) := by
    intro o f h
    refine ⟨[], LockAction.balanced_nil, ?_⟩
    rw [acted_nil, h]
  unfold isLeaderDown Paxos.isLeaderDown
  rw [Prog.gets_bind]
  split_ifs with hleader haddr
  · exact hnone (f := .ret false) rfl
  · exact hnone (f := .ret true) rfl
  · cases hrank : cfg.getClientUseAddressRank s.state.view.primary.addr with
    | none => exact hnone (f := .stop .assertion) rfl
    | some rank =>
      by_cases hown : rank = own
      · have hentry : hasEntry cfg own rank = false := by simp [hasEntry, hown]
        simp only [if_pos hown]
        exact hnone (f := .stop .assertion)
          (Prog.bind_of_stop (getReplicaClient_assertion hentry))
      · have hentry : hasEntry cfg own rank = true := hasEntry_iff.mpr ⟨rank_lt hrank, hown⟩
        refine ⟨[.lock rank, .unlock rank], LockAction.balanced_pair rank, ?_⟩
        simp only [if_neg hown]
        cases leader with
        | true =>
          rw [Prog.bind_of_ret (getReplicaClient_some hentry), if_pos rfl,
            Prog.bind_of_ret (releaseReplicaClient_eq hentry), acted_acted]
          rfl
        | false =>
          rw [Prog.bind_of_ret (getReplicaClient_none hentry), if_neg Bool.false_ne_true]
          rfl

theorem settles_isLeaderDown (leader : Bool) : Settles (isLeaderDown cfg own leader) s := by
  obtain ⟨t, ht, heq⟩ := isLeaderDown_eq cfg own s leader
  cases hdown : Paxos.isLeaderDown cfg own leader s.state with
  | none =>
    rw [hdown] at heq
    exact (settles_of_stop heq).mpr ht
  | some down =>
    rw [hdown] at heq
    exact (settles_of_ret heq).mpr ht

theorem settles_getNewLeaderRank : Settles (getNewLeaderRank cfg own connected) s := by
  obtain ⟨t, ht, heq⟩ := getNewLeaderRank_eq cfg own connected s
  exact (settles_of_ret heq).mpr ht

/-- When `isLeaderDown` says so. -/
theorem isLeaderDown_true {leader : Bool} {st : ReplicaState} :
    Paxos.isLeaderDown cfg own leader st = some true ↔
      st.isLeader = false ∧ (st.view.primary.addr = [] ∨ leader = false ∧
        ∃ rank ≠ own, cfg.getClientUseAddressRank st.view.primary.addr = some rank) := by
  unfold Paxos.isLeaderDown
  split_ifs with hleader haddr
  · simp [hleader]
  · simp [hleader, haddr]
  · cases hrank : cfg.getClientUseAddressRank st.view.primary.addr with
    | none => simp [haddr]
    | some rank =>
      by_cases hown : rank = own
      · simp [haddr, hown]
      · simp [hleader, haddr, hown]

/-- The replica chooses another one just if it reaches one of a lower rank. -/
theorem getNewLeaderRank_ne_own :
    Paxos.getNewLeaderRank cfg own (reached cfg connected) ≠ own ↔
      ∃ i < own, i < cfg.getMaxNumClient ∧ connected i = true := by
  obtain ⟨hmem, hleast⟩ := isLeast_getNewLeaderRank cfg own connected
  have hle := hleast (Or.inl rfl)
  constructor
  · intro hne
    rcases hmem with hown | ⟨hlt, hup⟩
    · exact absurd hown hne
    · exact ⟨_, by omega, hlt, hup⟩
  · rintro ⟨i, hlower, hlt, hup⟩ hown
    have hi := hleast (Or.inr ⟨hlt, hup⟩)
    omega

/-- The call of the replica chosen settles its lock unless it is made and throws. -/
theorem settles_notifyReplica {n : Prog Exit Access Bool} {rank : Nat}
    (h : hasEntry cfg own rank = true) {again : Bool} {initView : Option Bool}
    {meanwhile : ReplicaState → ReplicaState} {t : List (LockAction Nat)}
    (ht : LockAction.Balanced t)
    (hn : n s = notifyReplica cfg own again initView meanwhile rank (s.acted t)) :
    Settles n s ↔ (initView = none → again ≠ true) := by
  cases again with
  | false =>
    have hend : n s = .stop .assertion (s.acted (t ++ [.lock rank, .unlock rank])) := by
      rw [hn, notifyReplica, Prog.bind_of_ret (getReplicaClient_none h), acted_acted]
      rfl
    exact iff_of_true ((settles_of_stop hend).mpr (ht.append (LockAction.balanced_pair rank)))
      fun _ => Bool.false_ne_true
  | true =>
    rw [notifyReplica, Prog.bind_of_ret (getReplicaClient_some h), if_pos rfl, acted_acted] at hn
    cases initView with
    | none =>
      have hend : n s = .stop .exception (s.acted (t ++ [.lock rank])) := hn
      refine iff_of_false (fun hcon => ?_) fun hcon => hcon rfl rfl
      exact ht.not_lock rank ((settles_of_stop hend).mp hcon)
    | some succeed =>
      have hend : n s = .ret false { s.acted (t ++ [.lock rank, .unlock rank]) with
          state := (meanwhile s.state).notified cfg rank succeed } := by
        refine hn.trans ((Prog.bind_of_ret (releaseReplicaClient_eq h)).trans ?_)
        unfold Access.acted
        simp only [List.append_assoc, List.cons_append, List.nil_append]
        rfl
      exact iff_of_true ((settles_of_ret hend).mpr (ht.append (LockAction.balanced_pair rank)))
        nofun

theorem settles_notifyNewLeader (leader again : Bool) (initView : Option Bool)
    (meanwhile : ReplicaState → ReplicaState) :
    Settles (notifyNewLeader cfg own connected leader again initView meanwhile) s ↔
      (initView = none → ¬ CallsInitView cfg own connected leader again s.state) := by
  obtain ⟨t, ht, hdown⟩ := isLeaderDown_eq cfg own s leader
  cases hlooks : Paxos.isLeaderDown cfg own leader s.state with
  | none =>
    rw [hlooks] at hdown
    refine iff_of_true ((settles_of_stop (Prog.bind_of_stop hdown)).mpr ht) fun _ hcalls => ?_
    cases hlooks.symm.trans (isLeaderDown_true.mpr ⟨hcalls.follows, hcalls.down⟩)
  | some down =>
    rw [hlooks] at hdown
    cases down with
    | false =>
      have heq : notifyNewLeader cfg own connected leader again initView meanwhile s =
          .stop .assertion (s.acted t) := Prog.bind_of_ret hdown
      refine iff_of_true ((settles_of_stop heq).mpr ht) fun _ hcalls => ?_
      cases hlooks.symm.trans (isLeaderDown_true.mpr ⟨hcalls.follows, hcalls.down⟩)
    | true =>
      obtain ⟨hfollows, hleader⟩ := isLeaderDown_true.mp hlooks
      obtain ⟨t', ht', hrank⟩ := getNewLeaderRank_eq cfg own connected (s.acted t)
      rw [acted_acted] at hrank
      have heq : notifyNewLeader cfg own connected leader again initView meanwhile s = _ :=
        (Prog.bind_of_ret hdown).trans (Prog.bind_of_ret hrank)
      by_cases hown : Paxos.getNewLeaderRank cfg own (reached cfg connected) = own
      · rw [if_pos hown] at heq
        refine iff_of_true ((settles_of_ret heq).mpr (ht.append ht')) fun _ hcalls => ?_
        exact getNewLeaderRank_ne_own.mpr hcalls.lower hown
      · rw [if_neg hown] at heq
        have hentry : hasEntry cfg own (Paxos.getNewLeaderRank cfg own (reached cfg connected)) =
            true := by
          rcases (isLeast_getNewLeaderRank cfg own connected).1 with hcon | ⟨hlt, _⟩
          · exact absurd hcon hown
          · exact hasEntry_iff.mpr ⟨hlt, hown⟩
        refine (settles_notifyReplica hentry (ht.append ht') heq).trans ?_
        have hlower := getNewLeaderRank_ne_own.mp hown
        exact imp_congr_right fun _ => not_congr
          ⟨fun hagain => ⟨hfollows, hleader, hlower, hagain⟩, fun hcalls => hcalls.again⟩

end Exits

/-! ## The calls of the two engines -/

/-- A call of one of the functions above, and how the remote calls it makes end. -/
inductive EngineCall where
  | replicateView (answers : ReplicateArg → Nat → Bool) (xdrToMsg : View → Str) (newview : View)
  | replicateCommand (answers : ReplicateArg → Nat → Bool) (run : Str → Option Str) (request : Str)
  | isLeaderDown (leader : Bool)
  | getNewLeaderRank
  | notifyNewLeader (leader again : Bool) (initView : Option Bool)
      (meanwhile : ReplicaState → ReplicaState)

section EngineCall

variable (cfg : Config) (own : Nat) (connected : Nat → Bool) (s : Access)

/-- The call has settled its locks however it ends. -/
def EngineCall.Settles : EngineCall → Prop
  | .replicateView answers xdrToMsg newview =>
    ReplicaClientSet.Settles
      (ReplicaClientSet.replicateView cfg own connected answers xdrToMsg newview) s
  | .replicateCommand answers run request =>
    ReplicaClientSet.Settles
      (ReplicaClientSet.replicateCommand cfg own connected answers run request) s
  | .isLeaderDown leader =>
    ReplicaClientSet.Settles (ReplicaClientSet.isLeaderDown cfg own leader) s
  | .getNewLeaderRank =>
    ReplicaClientSet.Settles (ReplicaClientSet.getNewLeaderRank cfg own connected) s
  | .notifyNewLeader leader again initView meanwhile =>
    ReplicaClientSet.Settles
      (ReplicaClientSet.notifyNewLeader cfg own connected leader again initView meanwhile) s

/-- No remote call throws while the lock of its client is held. -/
def EngineCall.NeverThrown : EngineCall → Prop
  | .replicateView answers xdrToMsg newview =>
    Answered cfg own connected answers ⟨0, xdrToMsg newview⟩
  | .replicateCommand answers _ request => Answered cfg own connected answers ⟨1, request⟩
  | .isLeaderDown _ => True
  | .getNewLeaderRank => True
  | .notifyNewLeader leader again initView _ =>
    initView = none → ¬ CallsInitView cfg own connected leader again s.state

/-- The locks are settled if and only if no call of another replica throws: nothing
    releases the client on the way out. -/
theorem settles_iff (call : EngineCall) :
    call.Settles cfg own connected s ↔ call.NeverThrown cfg own connected s := by
  cases call with
  | replicateView answers xdrToMsg newview => exact settles_replicateView xdrToMsg newview
  | replicateCommand answers run request => exact settles_replicateCommand run request
  | isLeaderDown leader => exact iff_of_true (settles_isLeaderDown leader) trivial
  | getNewLeaderRank => exact iff_of_true settles_getNewLeaderRank trivial
  | notifyNewLeader leader again initView meanwhile =>
    exact settles_notifyNewLeader leader again initView meanwhile

end EngineCall

/-- The first of two replicas sends a command to the second, which does not come back
    to it. -/
theorem not_settles : ¬ ∀ cfg own connected s (call : EngineCall),
    call.Settles cfg own connected s := by
  intro hall
  have hsettles := hall ⟨1, [(['a'], ['x']), (['b'], ['y'])]⟩ 0 (fun _ => true) ⟨.fresh, []⟩
    (.replicateCommand (fun _ _ => false) some [])
  have hanswered := (settles_replicateCommand some []).mp hsettles
  exact absurd (hanswered 1 (by decide) (by decide) rfl) Bool.false_ne_true

end ReplicaClientSet

end Paxos

end SimpleChubby
