import SimpleChubby.Path

/-!
# One Paxos replica

The configuration file, the state behind `ReplicaState`'s lock, and what
`paxos/change_view_engine.cc` and `paxos/paxos_impl.cc` do to it while they hold
the lock. Of a view the code changes only the primary; the rest goes with it from
replica to replica. Which other replicas can be reached is an argument.
-/

namespace SimpleChubby

namespace Paxos

/-- The configuration file: a quota, and for each replica its address for the
    other replicas and its address for clients. -/
structure Config where
  quota : Nat
  addresses : List (Str × Str)

namespace Config

variable (cfg : Config)

/-- `getConsensusQuota`. -/
def getConsensusQuota : Nat := cfg.quota

/-- `getMaxNumClient`: the number of replicas. -/
def getMaxNumClient : Nat := cfg.addresses.length

/-- `getReplicaAddress`, for a rank of the configuration. -/
def getReplicaAddress (rank : Nat) : Str := (cfg.addresses.getD rank ([], [])).1

/-- `getClientUseAddress`, for a rank of the configuration. -/
def getClientUseAddress (rank : Nat) : Str := (cfg.addresses.getD rank ([], [])).2

/-- `getClientUseAddressRank`; `none` is the result -1. -/
def getClientUseAddressRank (address : Str) : Option Nat :=
  cfg.addresses.findIdx? (·.2 == address)

end Config

/-- `struct viewid_t`. -/
structure ViewId where
  counter : UInt64
  manager : Str
  deriving DecidableEq, Repr

/-- `struct cohort_t`. -/
structure Cohort where
  id : Str
  addr : Str
  deriving DecidableEq, Repr

/-- `struct view_t`. -/
structure View where
  vid : ViewId
  primary : Cohort
  backups : List Cohort
  deriving DecidableEq, Repr

/-- The `mode` of a `vc_state`. -/
inductive VcMode where
  | active
  | manager
  | underling
  deriving DecidableEq, Repr

/-- `struct ReplicaState`. -/
structure ReplicaState where
  isLeader : Bool
  isInitialized : Bool
  mode : VcMode
  view : View
  deriving DecidableEq, Repr

/-- A `view_t` that has just been made. -/
def View.fresh : View := ⟨⟨0, []⟩, ⟨[], []⟩, []⟩

/-- The constructor of `ReplicaState`: a replica starts as a view manager that
    knows no leader. -/
def ReplicaState.fresh : ReplicaState := ⟨false, false, .manager, .fresh⟩

section Engine

variable (cfg : Config)

/-- The primary that the replica `rank` is. -/
def cohortOf (rank : Nat) : Cohort := ⟨cfg.getReplicaAddress rank, cfg.getClientUseAddress rank⟩

/-- The view with the replica `rank` as its primary. -/
def View.ledBy (rank : Nat) (view : View) : View := { view with primary := cohortOf cfg rank }

/-- The replica `rank` takes the leadership. -/
def ReplicaState.lead (rank : Nat) (st : ReplicaState) : ReplicaState :=
  { st with isLeader := true, view := st.view.ledBy cfg rank, mode := .active }

/-- `isLeaderDown` at the replica `self`; `reachable` tells whether there is a
    client for the leader. `none` is a failed assertion, here or in
    `getReplicaClient`, which knows no client for the replica itself. -/
def isLeaderDown (self : Nat) (reachable : Bool) (st : ReplicaState) : Option Bool :=
  if st.isLeader then some false
  else if st.view.primary.addr = [] then some true
  else
    match cfg.getClientUseAddressRank st.view.primary.addr with
    | none => none
    | some leaderRank => if leaderRank = self then none else some (!reachable)

/-- `getNewLeaderRank`, where `up` are the replicas there is a client for. The
    loop stops at the first of them. -/
def getNewLeaderRank (self : Nat) (up : List Nat) : Nat :=
  match (List.range cfg.getMaxNumClient).find? fun i => decide (i ≠ self ∧ i ∈ up) with
  | none => self
  | some i => if i < self then i else self

/-- How a turn of the loop in `run` ends. -/
inductive Turn where
  /-- An assertion fails. -/
  | abort
  /-- The turn ends without a view change. -/
  | waits (st : ReplicaState)
  /-- `NotifyNewLeader` has made the replica itself the leader. -/
  | leads (st : ReplicaState)
  /-- `NotifyNewLeader` has chosen another replica and released the lock. -/
  | chooses (rank : Nat)
  deriving DecidableEq, Repr

/-- `NotifyNewLeader`, up to the place where it releases the lock. -/
def notifyNewLeader (self : Nat) (reachable : Bool) (up : List Nat) (st : ReplicaState) : Turn :=
  match isLeaderDown cfg self reachable st with
  | some true =>
    let rank := getNewLeaderRank cfg self up
    if rank = self then .leads (st.lead cfg self) else .chooses rank
  | _ => .abort

/-- A turn of the loop in `run`, up to the place where it releases the lock. -/
def run (self : Nat) (reachable : Bool) (up : List Nat) (st : ReplicaState) : Turn :=
  if st.mode = .manager then notifyNewLeader cfg self reachable up st
  else
    match isLeaderDown cfg self reachable st with
    | none => .abort
    | some true => .waits { st with mode := .manager }
    | some false => .waits st

/-- The end of `NotifyNewLeader`, when the replica `rank` has answered `init_view`. -/
def ReplicaState.notified (rank : Nat) (succeed : Bool) (st : ReplicaState) : ReplicaState :=
  if succeed then { st with mode := .active }
  else { st with isLeader := false, view := st.view.ledBy cfg rank, mode := .active }

/-- `replicate` with ts = 0: the leader of the view has changed. -/
def ReplicaState.newView (view : View) (st : ReplicaState) : ReplicaState :=
  { st with isLeader := false, view := view }

end Engine

end Paxos

end SimpleChubby
