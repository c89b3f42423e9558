import Mathlib.Logic.Function.Basic
import Mathlib.Tactic.SplitIfs
import SimpleChubby.Lib.Lts
import SimpleChubby.Paxos.Replica

/-!
# The replicas and the calls between them

Each replica runs three threads: the manager (`ChangeViewEngine::run`), the
listener, which serves the calls of the other replicas one by one, and the
client thread, which calls `execute`. A state holds the running processes, what
each back store has run, and the calls in the network; a label picks the thread
that moves next and what the network does. A process may end at any time and
start again with its back store as it was.
-/

namespace SimpleChubby

namespace Paxos

/-! ## The state -/

/-- A request to `execute`, numbered in the order in which the requests were made. -/
structure Command where
  number : Nat
  request : Str
  deriving DecidableEq, Repr

/-- The calls between replicas: `init_view`, and `replicate` with ts = 0 or ts = 1. -/
inductive Body where
  | initView
  | newView (view : View)
  | command (command : Command)
  deriving DecidableEq, Repr

/-- What a call brings back: the result of `replicate` or of `init_view`, or the
    reply of the RPC library when the handler has thrown. -/
inductive Answer where
  | replicated
  | succeed (val : Bool)
  | garbage
  deriving DecidableEq, Repr

/-- How far a call has come. -/
inductive Status where
  | sent
  | served
  | answered (answer : Answer)
  deriving DecidableEq, Repr

/-- Whether a call still has to be answered. -/
def Status.open : Status → Bool
  | .answered _ => false
  | _ => true

/-- A call in the network. -/
structure Call where
  xid : Nat
  dst : Nat
  body : Body
  status : Status
  deriving DecidableEq, Repr

/-- The threads of a replica. -/
inductive Thread where
  | manager
  | listener
  | client
  deriving DecidableEq, Repr

/-- The loop of `replicateCommand`: what it sends, the rank it is at, and the
    call it waits for. -/
structure Loop where
  body : Body
  rank : Nat
  call : Option Nat
  deriving DecidableEq, Repr

/-- A running replica. -/
structure Process where
  state : ReplicaState
  /-- The manager is inside `NotifyNewLeader`: the rank it has chosen, and its call. -/
  notifying : Option (Nat × Option Nat)
  /-- The threads that are inside `replicateCommand`. -/
  loops : Thread → Option Loop
  /-- The call of `init_view` the listener is serving. -/
  serving : Option Nat
  /-- The replicas whose client is in use: `getReplicaClient` blocks on them. -/
  locked : List Nat

/-- A replica that has just started. -/
def Process.fresh : Process := ⟨.fresh, none, fun _ => none, none, []⟩

/-- All replicas: `process rank` is `none` while the replica is down, and `history
    rank` is what its back store has run, without the commands that change nothing. -/
structure Cluster where
  process : Nat → Option Process
  history : Nat → List Command
  calls : List Call
  nextXid : Nat
  nextNumber : Nat
  /-- The commands for which `execute` has returned ok. -/
  acked : List Command

/-- Nothing has happened yet. -/
def Cluster.initial : Cluster := ⟨fun _ => none, fun _ => [], [], 0, 0, []⟩

namespace Cluster

variable (s : Cluster) (rank : Nat)

/-- The loop of a thread of a running replica. -/
def loop (t : Thread) : Option Loop := (s.process rank).bind fun p => p.loops t

/-- Whether the replica runs and is a leader. -/
def isLeader : Bool := (s.process rank).any fun p => p.state.isLeader

/-! ## What the steps change -/

/-- The process after a step of its own. -/
def setProcess (p : Process) : Cluster :=
  { s with process := Function.update s.process rank (some p) }

/-- The process ends; the calls it has not answered are lost with it. -/
def crash : Cluster :=
  { s with
    process := Function.update s.process rank none
    calls := s.calls.filter fun c => !(c.dst == rank && c.status.open) }

/-- A call written to the network; it is lost if the destination is down. -/
def send (body : Body) : Cluster :=
  { s with
    calls :=
      if (s.process rank).isSome then s.calls ++ [⟨s.nextXid, rank, body, .sent⟩] else s.calls
    nextXid := s.nextXid + 1 }

/-- The status of a call changes. -/
def setStatus (xid : Nat) (status : Status) : Cluster :=
  { s with calls := s.calls.map fun c => if c.xid = xid then { c with status := status } else c }

/-- A call leaves the network. -/
def lose (xid : Nat) : Cluster := { s with calls := s.calls.filter fun c => decide (c.xid ≠ xid) }

/-- The answer to a call, if it has arrived. -/
def answer (xid : Nat) : Option Answer :=
  match s.calls.find? (·.xid == xid) with
  | some ⟨_, _, _, .answered a⟩ => some a
  | _ => none

/-- The back store of a replica runs a command. -/
def backUp (mutating : Str → Bool) (c : Command) : Cluster :=
  if mutating c.request then
    { s with history := Function.update s.history rank (s.history rank ++ [c]) }
  else s

end Cluster

/-- The process with the loop of a thread changed. -/
def Process.setLoop (p : Process) (t : Thread) (l : Option Loop) : Process :=
  { p with loops := Function.update p.loops t l }

/-! ## The steps -/

section Steps

variable (cfg : Config) (mutating : Str → Bool)

/-- A turn of the manager's loop. The new leader begins its broadcast. -/
def manage (rank : Nat) (reachable : Bool) (up : List Nat) (p : Process) (s : Cluster) :
    Option Cluster :=
  if p.notifying.isSome || (p.loops .manager).isSome then none
  else
    match run cfg rank reachable up p.state with
    | .abort => some (s.crash rank)
    | .waits st => some (s.setProcess rank { p with state := st })
    | .leads st =>
      some (s.setProcess rank
        ({ p with state := st }.setLoop .manager (some ⟨.newView st.view, 0, none⟩)))
    | .chooses chosen => some (s.setProcess rank { p with notifying := some (chosen, none) })

/-- The call of `init_view` in `NotifyNewLeader`; it is an error if there is no
    client for the chosen replica any more. -/
def notify (rank : Nat) (up : Bool) (p : Process) (s : Cluster) : Option Cluster :=
  match p.notifying with
  | some (chosen, none) =>
    if chosen ∈ p.locked then none
    else if up then
      some ((s.send chosen .initView).setProcess rank
        { p with notifying := some (chosen, some s.nextXid), locked := chosen :: p.locked })
    else some (s.crash rank)
  | _ => none

/-- The return of `init_view`; an exception ends the manager's thread and the process. -/
def notified (rank : Nat) (p : Process) (s : Cluster) : Option Cluster :=
  match p.notifying with
  | some (chosen, some xid) =>
    match s.answer xid with
    | some (.succeed val) =>
      some ((s.lose xid).setProcess rank
        { p with
          state := p.state.notified cfg chosen val
          notifying := none
          locked := p.locked.erase chosen })
    | some .garbage => some (s.crash rank)
    | _ => none
  | _ => none

/-- An iteration of the loop of `replicateCommand`, up to the call it makes. -/
def replicateCommand (rank : Nat) (t : Thread) (up : Bool) (p : Process) (s : Cluster) :
    Option Cluster :=
  match p.loops t with
  | some ⟨body, i, none⟩ =>
    if cfg.getMaxNumClient ≤ i then none
    else if i = rank then some (s.setProcess rank (p.setLoop t (some ⟨body, i + 1, none⟩)))
    else if i ∈ p.locked then none
    else if up then
      some ((s.send i body).setProcess rank
        ({ p with locked := i :: p.locked }.setLoop t (some ⟨body, i, some s.nextXid⟩)))
    else some (s.setProcess rank (p.setLoop t (some ⟨body, i + 1, none⟩)))
  | _ => none

/-- The return of `replicate`, whose result is ignored. -/
def resume (rank : Nat) (t : Thread) (p : Process) (s : Cluster) : Option Cluster :=
  match p.loops t with
  | some ⟨body, i, some xid⟩ =>
    if (s.answer xid).isSome then
      some ((s.lose xid).setProcess rank
        ({ p with locked := p.locked.erase i }.setLoop t (some ⟨body, i + 1, none⟩)))
    else none
  | _ => none

/-- A call throws. Nobody catches the exception in the manager's thread; the
    RPC library catches it in the listener's, and the service in the client's.
    The client of the callee stays in use. -/
def fail (rank : Nat) (p : Process) (s : Cluster) : Thread → Option Cluster
  | .manager =>
    match p.notifying, p.loops .manager with
    | some (_, some _), _ => some (s.crash rank)
    | _, some ⟨_, _, some _⟩ => some (s.crash rank)
    | _, _ => none
  | .listener =>
    match p.serving, p.loops .listener with
    | some xid, some ⟨_, _, some _⟩ =>
      some ((s.setStatus xid (.answered .garbage)).setProcess rank
        { p.setLoop .listener none with serving := none })
    | _, _ => none
  | .client =>
    match p.loops .client with
    | some ⟨_, _, some _⟩ => some (s.setProcess rank (p.setLoop .client none))
    | _ => none

/-- What follows the loop of `replicateCommand`: `initializeLeader` for a new
    leader, and the command itself for the client. -/
def finish (rank : Nat) (p : Process) (s : Cluster) : Thread → Option Cluster
  | .manager =>
    match p.loops .manager with
    | some ⟨_, i, none⟩ =>
      if i < cfg.getMaxNumClient then none
      else
        some (s.setProcess rank
          { p.setLoop .manager none with state := { p.state with isInitialized := true } })
    | _ => none
  | .listener =>
    match p.serving, p.loops .listener with
    | some xid, some ⟨_, i, none⟩ =>
      if i < cfg.getMaxNumClient then none
      else
        some ((s.setStatus xid (.answered (.succeed true))).setProcess rank
          { p.setLoop .listener none with
            state := { p.state with isInitialized := true }
            serving := none })
    | _, _ => none
  | .client =>
    match p.loops .client with
    | some ⟨.command c, i, none⟩ =>
      if i < cfg.getMaxNumClient then none
      else
        some { (s.backUp rank mutating c).setProcess rank (p.setLoop .client none) with
          acked := s.acked ++ [c] }
    | _ => none

/-- The listener takes a call. -/
def serve (c : Call) (p : Process) (s : Cluster) : Option Cluster :=
  if p.serving.isSome then none
  else
    match c.body with
    | .newView view =>
      some ((s.setStatus c.xid (.answered .replicated)).setProcess c.dst
        { p with state := p.state.newView view })
    | .command command =>
      some ((s.setStatus c.xid (.answered .replicated)).backUp c.dst mutating command)
    | .initView =>
      if p.state.isLeader then some (s.setStatus c.xid (.answered (.succeed false)))
      else
        let st := p.state.lead cfg c.dst
        some ((s.setStatus c.xid .served).setProcess c.dst
          { p.setLoop .listener (some ⟨.newView st.view, 0, none⟩) with
            state := st
            serving := some c.xid })

/-- `execute`, up to the loop of `replicateCommand`. -/
def execute (rank : Nat) (request : Str) (p : Process) (s : Cluster) : Option Cluster :=
  if (p.loops .client).isSome then none
  else if p.state.isLeader then
    some { s.setProcess rank
        (p.setLoop .client (some ⟨.command ⟨s.nextNumber, request⟩, 0, none⟩)) with
      nextNumber := s.nextNumber + 1 }
  else some s

/-- What can happen next. -/
inductive Label where
  | start (rank : Nat)
  | crash (rank : Nat)
  | manage (rank : Nat) (reachable : Bool) (up : List Nat)
  | notify (rank : Nat) (up : Bool)
  | notified (rank : Nat)
  | replicateCommand (rank : Nat) (t : Thread) (up : Bool)
  | resume (rank : Nat) (t : Thread)
  | fail (rank : Nat) (t : Thread)
  | finish (rank : Nat) (t : Thread)
  | serve (xid : Nat)
  | lose (xid : Nat)
  | execute (rank : Nat) (request : Str)
  deriving DecidableEq, Repr

/-- One step of the replicas or of the network. -/
def step : Label → Cluster → Option Cluster
  | .start rank, s =>
    if rank < cfg.getMaxNumClient ∧ (s.process rank).isNone then
      some (s.setProcess rank .fresh)
    else none
  | .crash rank, s => if (s.process rank).isSome then some (s.crash rank) else none
  | .manage rank reachable up, s => (s.process rank).bind (manage cfg rank reachable up · s)
  | .notify rank up, s => (s.process rank).bind (notify rank up · s)
  | .notified rank, s => (s.process rank).bind (notified cfg rank · s)
  | .replicateCommand rank t up, s => (s.process rank).bind (replicateCommand cfg rank t up · s)
  | .resume rank t, s => (s.process rank).bind (resume rank t · s)
  | .fail rank t, s => (s.process rank).bind (fail rank · s t)
  | .finish rank t, s => (s.process rank).bind (finish cfg mutating rank · s t)
  | .serve xid, s =>
    (s.calls.find? fun c => c.xid == xid && c.status == .sent).bind fun c =>
      (s.process c.dst).bind (serve cfg mutating c · s)
  | .lose xid, s => some (s.lose xid)
  | .execute rank request, s => (s.process rank).bind (execute rank request · s)

/-- The runs of the replicas of a configuration. -/
def cluster : Lts Cluster Label where
  init s := s = .initial
  step := step cfg mutating

end Steps

end Paxos

end SimpleChubby
