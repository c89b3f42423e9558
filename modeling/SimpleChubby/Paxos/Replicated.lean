import SimpleChubby.Paxos.Wire

/-!
# The replicated database

`ExecuteReplicateEngine::replicateCommand` at a leader
(`paxos/execute_replicate_engine.cc:27-42`), and `ServerDBPaxos` over it: a
command is sent to every replica that there is a client for, one after the other,
and then run on the leader's own back store. While the databases agree and each
command is short enough for the sockets of the replicas, the service gets the
answers of a single database, and they go on agreeing.
-/

namespace SimpleChubby

open Xdr Rpc

namespace Paxos

/-- The database of a leader, and the replicas that it has a client for. -/
structure Replicas where
  own : Store
  peer : Nat → Option Backup

/-- There is a client for the replica `i`, or there is none any more. -/
def Replicas.setPeer (rs : Replicas) (i : Nat) (b : Option Backup) : Replicas :=
  { rs with peer := Function.update rs.peer i b }

/-- The replica `i`, if it is reached, has another database. -/
def Replicas.setStore (rs : Replicas) (i : Nat) (st : Store) : Replicas :=
  rs.setPeer i ((rs.peer i).map fun b => { b with store := st })

theorem Replicas.peer_setStore (rs : Replicas) (i : Nat) (st : Store) (j : Nat) :
    (rs.setStore i st).peer j =
      if j = i then (rs.peer i).map fun b => { b with store := st } else rs.peer j :=
  Function.update_apply rs.peer i _ j

theorem Replicas.states_setStore (rs : Replicas) (i : Nat) (st : Store) (j : Nat) :
    ((rs.setStore i st).peer j).map Backup.state = (rs.peer j).map Backup.state := by
  rw [rs.peer_setStore]
  split_ifs with hj
  · rw [hj, Option.map_map]
    rfl
  · rfl

/-- The machines of the replicas, and the leader among them: the byte order of each,
    how it would announce a view, and how the leader finds that it has closed the
    connection. All run the same program. -/
structure Group where
  cfg : Config
  self : Nat
  host : Nat → ByteOrder
  announce : Nat → View → Option Thrown
  closed : Nat → XdrFault
  sq : Engine
  strHash : Str → UInt64

namespace Group

variable (g : Group)

/-- A turn of the loop in `replicateCommand`. A replica whose listener is left by an
    exception exits, and the leader finds the end of the stream. -/
def replicateTo (xid : UInt32) (arg : WireReplicateArg) (i : Nat) :
    Prog Fault Replicas Unit := fun rs =>
  if i = g.self then .ret () rs
  else
    match rs.peer i with
    | none => .ret () rs
    | some b =>
      let servers := paxosServers (g.host i) g.cfg i g.sq g.strHash (g.announce i)
      match callReplicate (g.host g.self) (g.host i) servers (g.closed i) xid arg b with
      | .ret (.ok _) b' => .ret () (rs.setPeer i (some b'))
      | .ret (.error e) b' => .stop (faultOf e) (rs.setPeer i (some b'))
      | .stop _ _ => .stop .exception (rs.setPeer i none)

/-- `replicateCommand`; the calls have the transaction ids `xids`. -/
def replicateCommand (xids : Nat → UInt32) (request : List UInt8) :
    Prog Fault Replicas (List UInt8) := do
  Prog.forEach (fun i => g.replicateTo (xids i) (commandArg request) i)
    (List.range g.cfg.getMaxNumClient)
  match ← Prog.embed Replicas.own (fun st rs => { rs with own := st })
      (ServerdbBackstore.runBytes (g.host g.self) g.sq g.strHash request) with
  | .ok reply => return reply
  | .error e => Prog.halt e.fault

/-- The library of the leader; `execute` finds that it is one. -/
def paxos (xids : Nat → UInt32) : OpaquePaxos Replicas where
  execute := g.replicateCommand xids
  isLeaderAndInitialized _ := true

/-- The replicas that can be reached have the database of the leader. -/
def Agree (rs : Replicas) : Prop :=
  ∀ i < g.cfg.getMaxNumClient, i ≠ g.self → ∀ b, rs.peer i = some b → b.store = rs.own

variable {g}

/-! ## The loop -/

section Loop

variable {xids : Nat → UInt32} {p : ServerPaxosParam} {m : Message} {st : Store} {rs : Replicas}

/-- A turn does not touch the database of the leader. -/
theorem replicateTo_guards (xid : UInt32) (arg : WireReplicateArg) (i : Nat) :
    Prog.Guards (fun _ => True) (fun rs rs' => rs'.own = rs.own) (g.replicateTo xid arg i) := by
  intro rs _
  unfold Prog.wp replicateTo
  split_ifs
  · exact ⟨trivial, rfl⟩
  · cases rs.peer i with
    | none => exact ⟨trivial, rfl⟩
    | some b =>
      dsimp only
      cases callReplicate (g.host g.self) (g.host i)
          (paxosServers (g.host i) g.cfg i g.sq g.strHash (g.announce i))
          (g.closed i) xid arg b with
      | ret res b' => cases res with
        | ok _ => exact ⟨trivial, rfl⟩
        | error e => rfl
      | stop e b' => rfl

/-- Nor does the loop. -/
theorem forEach_guards (xids : Nat → UInt32) (arg : WireReplicateArg) (ranks : List Nat) :
    Prog.Guards (fun _ => True) (fun rs rs' => rs'.own = rs.own)
      (Prog.forEach (fun i => g.replicateTo (xids i) arg i) ranks) :=
  Prog.Guards.forEach (T := fun rs rs' : Replicas => rs'.own = rs.own) (fun _ => rfl)
    (fun _ _ _ h h' => h'.trans h) (fun i => g.replicateTo_guards (xids i) arg i) ranks

/-- A turn with a command that is short enough: the replica has run it, or none is
    reached. -/
theorem replicateTo_command (xid : UInt32) (hp : p.IsBytes)
    (h : xdrToMsg (g.host g.self) paramUnion.unionTraits p.toObj = .ok m)
    (hlen : m.data.length ≤ maxRequest) (i : Nat) :
    g.replicateTo xid (commandArg m.data) i rs =
      if i = g.self then .ret () rs
      else
        match rs.peer i with
        | none => .ret () rs
        | some b =>
          match backedUp b.state (ServerdbBackstore.run g.sq g.strHash p b.store) with
          | .ret _ b' => .ret () (rs.setPeer i (some b'))
          | .stop _ _ => .stop .exception (rs.setPeer i none) := by
  unfold replicateTo
  split_ifs
  · rfl
  · cases rs.peer i with
    | none => rfl
    | some b =>
      dsimp only
      rw [callReplicate_command hp h hlen]
      cases backedUp b.state (ServerdbBackstore.run g.sq g.strHash p b.store) <;> rfl

/-- A turn with a command that returns. -/
theorem replicateTo_ret {st' : Store} {r : ServerPaxosResult} (xid : UInt32) (hp : p.IsBytes)
    (h : xdrToMsg (g.host g.self) paramUnion.unionTraits p.toObj = .ok m)
    (hlen : m.data.length ≤ maxRequest)
    (hrun : ServerdbBackstore.run g.sq g.strHash p st = .ret r st')
    (hshort : (resultUnionFormat.encode r.toObj).length < 0x80000000) {i : Nat}
    (hst : i ≠ g.self → ∀ b, rs.peer i = some b → b.store = st) :
    g.replicateTo xid (commandArg m.data) i rs =
      .ret () (if i = g.self then rs else rs.setStore i st') := by
  rw [replicateTo_command xid hp h hlen]
  split_ifs with hself
  · rfl
  · cases hpeer : rs.peer i with
    | none =>
      have hsame : rs.setStore i st' = rs := by
        unfold Replicas.setStore Replicas.setPeer
        rw [hpeer, Option.map_none, ← hpeer, Function.update_eq_self]
      rw [hsame]
    | some b =>
      have hback : backedUp b.state (ServerdbBackstore.run g.sq g.strHash p b.store) =
          .ret () ⟨b.state, st'⟩ := by
        rw [hst hself b hpeer, hrun]
        exact if_pos hshort
      dsimp only
      rw [hback]
      unfold Replicas.setStore
      rw [hpeer]
      rfl

variable (xids) in
/-- The loop with a command that returns: each replica reached has run it, and the
    state behind its lock is as it was. -/
theorem forEach_ret {st' : Store} {r : ServerPaxosResult} (hp : p.IsBytes)
    (h : xdrToMsg (g.host g.self) paramUnion.unionTraits p.toObj = .ok m)
    (hlen : m.data.length ≤ maxRequest)
    (hrun : ServerdbBackstore.run g.sq g.strHash p st = .ret r st')
    (hshort : (resultUnionFormat.encode r.toObj).length < 0x80000000) (ranks : List Nat)
    (hnodup : ranks.Nodup)
    (hst : ∀ i ∈ ranks, i ≠ g.self → ∀ b, rs.peer i = some b → b.store = st) :
    ∃ rs', Prog.forEach (fun i => g.replicateTo (xids i) (commandArg m.data) i) ranks rs =
        .ret () rs' ∧ rs'.own = rs.own ∧
      (∀ i ∈ ranks, i ≠ g.self → ∀ b, rs'.peer i = some b → b.store = st') ∧
      (∀ i ∉ ranks, rs'.peer i = rs.peer i) ∧
      ∀ i, (rs'.peer i).map Backup.state = (rs.peer i).map Backup.state := by
  induction ranks generalizing rs with
  | nil => exact ⟨rs, rfl, rfl, by simp, fun _ _ => rfl, fun _ => rfl⟩
  | cons i rest ih =>
    obtain ⟨hi, hrest⟩ := List.nodup_cons.mp hnodup
    have hturn := replicateTo_ret (xids i) hp h hlen hrun hshort
      (hst i (List.mem_cons_self ..))
    by_cases hself : i = g.self
    · rw [if_pos hself] at hturn
      obtain ⟨rs', hloop, hown, hran, hsame, hstates⟩ := ih hrest
        fun j hj => hst j (List.mem_cons_of_mem _ hj)
      refine ⟨rs', (Prog.bind_of_ret hturn).trans hloop, hown, ?_, ?_, hstates⟩
      · intro j hj hne
        rcases List.mem_cons.mp hj with rfl | hj
        · exact absurd hself hne
        · exact hran j hj hne
      · intro j hj
        exact hsame j fun hmem => hj (List.mem_cons_of_mem _ hmem)
    · rw [if_neg hself] at hturn
      have hst' : ∀ j ∈ rest, j ≠ g.self → ∀ b, (rs.setStore i st').peer j = some b →
          b.store = st := by
        intro j hj hne b hpeer
        have hji : j ≠ i := by
          rintro rfl
          exact hi hj
        rw [rs.peer_setStore, if_neg hji] at hpeer
        exact hst j (List.mem_cons_of_mem _ hj) hne b hpeer
      obtain ⟨rs', hloop, hown, hran, hsame, hstates⟩ := ih hrest hst'
      refine ⟨rs', (Prog.bind_of_ret hturn).trans hloop, hown, ?_, ?_, ?_⟩
      · intro j hj hne b hpeer
        rcases List.mem_cons.mp hj with rfl | hj
        · rw [hsame j hi, rs.peer_setStore, if_pos rfl] at hpeer
          obtain ⟨b', _, rfl⟩ := Option.map_eq_some_iff.mp hpeer
          rfl
        · exact hran j hj hne b hpeer
      · intro j hj
        rw [hsame j fun hmem => hj (List.mem_cons_of_mem _ hmem), rs.peer_setStore, if_neg]
        rintro rfl
        exact hj (List.mem_cons_self ..)
      · intro j
        rw [hstates j, rs.states_setStore]

/-- The loop with a command that is too long throws, if there is a replica to send it to. -/
theorem forEach_tooLong (xids : Nat → UInt32) {command : List UInt8}
    (hlong : maxRequest < command.length) {i : Nat} (hself : i ≠ g.self) {b : Backup}
    {ranks : List Nat} (hi : i ∈ ranks) (hpeer : rs.peer i = some b) :
    ∃ e rs', Prog.forEach (fun i => g.replicateTo (xids i) (commandArg command) i) ranks rs =
      .stop e rs' := by
  induction ranks with
  | nil => cases hi
  | cons j rest ih =>
    have hturn : (∃ e rs', g.replicateTo (xids j) (commandArg command) j rs = .stop e rs') ∨
        g.replicateTo (xids j) (commandArg command) j rs = .ret () rs ∧ j ≠ i := by
      unfold replicateTo
      by_cases hj : j = g.self
      · refine Or.inr ⟨if_pos hj, ?_⟩
        rintro rfl
        exact hself hj
      · rw [if_neg hj]
        cases hpeer' : rs.peer j with
        | none =>
          refine Or.inr ⟨rfl, ?_⟩
          rintro rfl
          cases hpeer'.symm.trans hpeer
        | some b' =>
          obtain ⟨e, hcall⟩ : ∃ e, callReplicate (g.host g.self) (g.host j)
              (paxosServers (g.host j) g.cfg j g.sq g.strHash (g.announce j)) (g.closed j)
              (xids j) (commandArg command) b' = .ret (.error e) b' :=
            callReplicate_tooLong hlong
          refine Or.inl ⟨faultOf e, rs.setPeer j (some b'), ?_⟩
          dsimp only
          rw [hcall]
    rcases hturn with ⟨e, rs', hstop⟩ | ⟨hret, hji⟩
    · exact ⟨e, rs', Prog.bind_of_stop hstop⟩
    · have hrest := List.mem_of_ne_of_mem (Ne.symm hji) hi
      obtain ⟨e, rs', hloop⟩ := ih hrest
      exact ⟨e, rs', (Prog.bind_of_ret hret).trans hloop⟩

end Loop

/-! ## Calls -/

section Calls

variable {p : ServerPaxosParam} {rs : Replicas}

/-- The ranks of the loop are those below the number of replicas. -/
theorem Agree.ranks (h : g.Agree rs) : ∀ i ∈ List.range g.cfg.getMaxNumClient, i ≠ g.self →
    ∀ b, rs.peer i = some b → b.store = rs.own :=
  fun i hi => h i (List.mem_range.mp hi)

/-- A call that the leader's database answers is answered by it, and everybody has run
    the command. -/
theorem call_ret (xids : Nat → UInt32) {r : ServerPaxosResult} {st' : Store} (hp : p.IsBytes)
    (hsize : (paramUnionFormat.encode p.toObj).length ≤ maxRequest) (hagree : g.Agree rs)
    (hrun : ServerdbBackstore.run g.sq g.strHash p rs.own = .ret r st') (hr : r.IsBytes)
    (hshort : (resultUnionFormat.encode r.toObj).length < 0x80000000) :
    ∃ rs', runPaxos (g.host g.self) (g.paxos xids) p rs = .ret r rs' ∧ rs'.own = st' ∧
      g.Agree rs' ∧ ∀ i, (rs'.peer i).map Backup.state = (rs.peer i).map Backup.state := by
  have hmessage : (paramUnionFormat.encode p.toObj).length < 0x80000000 := by
    unfold maxRequest maxmsglen at hsize
    omega
  have hm : xdrToMsg (g.host g.self) paramUnion.unionTraits p.toObj = .ok ⟨_, hmessage⟩ :=
    (xdrToMsg_eq paramUnionFormat _ p.toObj).trans (dif_pos hmessage)
  obtain ⟨rs₁, hloop, hown, hran, _, hstates⟩ := forEach_ret xids hp hm hsize hrun hshort
    (List.range g.cfg.getMaxNumClient) List.nodup_range hagree.ranks
  have hrunParam := runParam_eq (g.host g.self) g.sq g.strHash p rs.own
  rw [hrun, ← hown] at hrunParam
  dsimp only at hrunParam
  rw [if_pos hshort] at hrunParam
  refine ⟨{ rs₁ with own := st' }, runPaxos_of_ret hm hr hshort ?_, rfl, ?_, hstates⟩
  · show (g.replicateCommand xids _) rs = _
    unfold replicateCommand
    rw [Prog.bind_of_ret hloop, runBytes_of_xdrToMsg (g.host g.self) g.sq g.strHash hp hm,
      Prog.bind_of_ret (Prog.embed_of_ret hrunParam)]
    rfl
  · exact fun i hi => hran i (List.mem_range.mpr hi)

/-- The leader's own run stops where its database does or has an answer that is no message. -/
theorem runParam_stop (host : ByteOrder) {st : Store}
    (hrun : ∀ r st', ServerdbBackstore.run g.sq g.strHash p st = .ret r st' →
      ¬ (resultUnionFormat.encode r.toObj).length < 0x80000000) :
    ∃ e st', ServerdbBackstore.runParam host g.sq g.strHash p st = .stop e st' := by
  have hrunParam := runParam_eq host g.sq g.strHash p st
  cases hend : ServerdbBackstore.run g.sq g.strHash p st with
  | ret r st' =>
    rw [hend] at hrunParam
    exact ⟨_, _, hrunParam.trans (if_neg (hrun r st' hend))⟩
  | stop e st' =>
    rw [hend] at hrunParam
    exact ⟨_, _, hrunParam⟩

/-- The command is a message, or nothing is sent. -/
theorem runPaxos_message (host : ByteOrder) (lib : OpaquePaxos Replicas) :
    runPaxos host lib p rs = .stop .assertion rs ∨
      ∃ m, xdrToMsg host paramUnion.unionTraits p.toObj = .ok m := by
  rcases xdrToMsg_cases paramUnionFormat host p.toObj with ⟨_, hm⟩ | ⟨_, hm⟩
  · refine Or.inl ?_
    unfold runPaxos
    rw [hm]
    rfl
  · exact Or.inr hm

/-- Where the database stops or its answer is no message, the call throws, whatever the
    databases of the replicas are. -/
theorem call_stop (xids : Nat → UInt32) (hp : p.IsBytes)
    (hrun : ∀ r st', ServerdbBackstore.run g.sq g.strHash p rs.own = .ret r st' →
      ¬ (resultUnionFormat.encode r.toObj).length < 0x80000000) :
    ∃ e rs', runPaxos (g.host g.self) (g.paxos xids) p rs = .stop e rs' := by
  rcases runPaxos_message (g.host g.self) (g.paxos xids) with hstop | ⟨m, hm⟩
  · exact ⟨.assertion, rs, hstop⟩
  · have hguards := forEach_guards (g := g) xids (commandArg m.data)
      (List.range g.cfg.getMaxNumClient) rs trivial
    unfold Prog.wp at hguards
    cases hloop : Prog.forEach (fun i => g.replicateTo (xids i) (commandArg m.data) i)
        (List.range g.cfg.getMaxNumClient) rs with
    | stop e rs' => exact ⟨e, rs', runPaxos_of_stop hm (Prog.bind_of_stop hloop)⟩
    | ret _ rs₁ =>
      -- the replicas have let it pass, but the leader's own run stops
      rw [hloop] at hguards
      obtain ⟨_, hown⟩ := hguards
      obtain ⟨e, st', hstop⟩ := runParam_stop (g.host g.self) hrun
      rw [← show rs₁.own = rs.own from hown] at hstop
      refine ⟨e.fault, { rs₁ with own := st' }, runPaxos_of_stop hm ?_⟩
      show (g.replicateCommand xids _) rs = _
      unfold replicateCommand
      rw [Prog.bind_of_ret hloop, runBytes_of_xdrToMsg (g.host g.self) g.sq g.strHash hp hm,
        Prog.bind_of_ret (Prog.embed_of_stop hstop)]
      rfl

/-- A call with a command that no replica takes throws, if there is a client for any. -/
theorem call_tooLong (xids : Nat → UInt32)
    (hsize : maxRequest < (paramUnionFormat.encode p.toObj).length) {i : Nat}
    (hi : i < g.cfg.getMaxNumClient) (hself : i ≠ g.self) {b : Backup}
    (hpeer : rs.peer i = some b) :
    ∃ e rs', runPaxos (g.host g.self) (g.paxos xids) p rs = .stop e rs' := by
  rcases runPaxos_message (g.host g.self) (g.paxos xids) with hstop | ⟨m, hm⟩
  · exact ⟨.assertion, rs, hstop⟩
  · rw [← data_of_xdrToMsg paramUnionFormat hm] at hsize
    obtain ⟨e, rs', hloop⟩ := forEach_tooLong xids hsize hself
      (List.mem_range.mpr hi) hpeer
    exact ⟨e, rs', runPaxos_of_stop hm (Prog.bind_of_stop hloop)⟩

end Calls

end Group

/-! ## Every run -/

/-- Calls of `ServerDBPaxos` one after the other; each has the transaction ids of its
    calls to the replicas. -/
def Group.calls (g : Group) :
    List (ServerPaxosParam × (Nat → UInt32)) → Prog Fault Replicas (List ServerPaxosResult)
  | [] => return []
  | (p, xids) :: rest => do
    let r ← runPaxos (g.host g.self) (g.paxos xids) p
    let results ← calls g rest
    return r :: results

/-- Replication is transparent: while the databases of the leader and of the replicas it
    reaches agree, any calls whose commands the replicas take get the results that a
    single database gives, after them the databases agree again, and no replica has
    changed its mind about the leader. -/
theorem replicated_calls (g : Group) (calls : List (ServerPaxosParam × (Nat → UInt32)))
    (rs : Replicas) (results : List ServerPaxosResult) (st' : Store)
    (hcalls : ∀ call ∈ calls, call.1.IsBytes ∧
      (paramUnionFormat.encode call.1.toObj).length ≤ maxRequest)
    (hagree : g.Agree rs)
    (hrun : ServerdbBackstore.runAll g.sq g.strHash (calls.map Prod.fst) rs.own = .ret results st')
    (hresults : ∀ r ∈ results, r.IsBytes ∧
      (resultUnionFormat.encode r.toObj).length < 0x80000000) :
    ∃ rs', g.calls calls rs = .ret results rs' ∧ rs'.own = st' ∧ g.Agree rs' ∧
      ∀ i, (rs'.peer i).map Backup.state = (rs.peer i).map Backup.state := by
  induction calls generalizing rs results with
  | nil =>
    cases hrun
    exact ⟨rs, rfl, rfl, hagree, fun _ => rfl⟩
  | cons call rest ih =>
    obtain ⟨p, xids⟩ := call
    obtain ⟨hp, hsize⟩ := hcalls _ (List.mem_cons_self ..)
    obtain ⟨r, st₁, hfirst, hrest⟩ := Prog.bind_eq_ret.mp hrun
    obtain ⟨results', st₂, hrest, hend⟩ := Prog.bind_eq_ret.mp hrest
    cases hend
    obtain ⟨hr, hshort⟩ := hresults _ (List.mem_cons_self ..)
    obtain ⟨rs₁, hcall, rfl, hagree₁, hstates₁⟩ :=
      Group.call_ret xids hp hsize hagree hfirst hr hshort
    obtain ⟨rs', hcalls', hown, hagree', hstates⟩ :=
      ih rs₁ results' (fun c hc => hcalls c (List.mem_cons_of_mem _ hc)) hagree₁ hrest
        fun r hr => hresults r (List.mem_cons_of_mem _ hr)
    refine ⟨rs', ?_, hown, hagree', fun i => (hstates i).trans (hstates₁ i)⟩
    unfold Group.calls
    rw [Prog.bind_of_ret hcall, Prog.bind_of_ret hcalls']
    rfl

/-- A leader with the rank 1, and a replica of another byte order. -/
def pairOfReplicas : Group :=
  ⟨⟨2, [([], []), ([], [])]⟩, 1, fun i => if i = 0 then .big else .little, fun _ _ => none,
    fun _ => .badMessageSize "read_message: premature EOF", .refusing, fun _ => 0⟩

/-- The replica has taken over the view of the leader. -/
def emptyReplicas : Replicas := ⟨.empty, fun i => if i = 0 then some ⟨.fresh, .empty⟩ else none⟩

theorem agree_emptyReplicas : pairOfReplicas.Agree emptyReplicas := by
  intro i _ _ b hpeer
  obtain ⟨_, hb⟩ := Option.ite_none_right_eq_some.mp hpeer
  cases hb
  rfl

theorem call_stop_quote :
    ∃ e rs', runPaxos .little (pairOfReplicas.paxos fun _ => 1) (.checkAndOpen ['"'])
      emptyReplicas = .stop e rs' := by
  have hbytes : XdrFormat.IsBytes ['"'] := by simp
  have hstop : ∃ e st', ServerdbBackstore.run .refusing (fun _ => 0) (.checkAndOpen ['"']) .empty =
      .stop e st' := ⟨_, _, rfl⟩
  refine Group.call_stop (g := pairOfReplicas) (fun _ => 1) hbytes ?_
  intro r st' hret
  obtain ⟨e, st'', hstop⟩ := hstop
  cases hstop.symm.trans hret

theorem replicated_createOpen :
    ∃ rs', pairOfReplicas.calls [(.checkAndCreate "/f".toList false, fun _ => 1),
        (.checkAndOpen "/f".toList, fun _ => 2)] emptyReplicas =
        .ret [.checkAndCreate 1 true, .checkAndOpen 1 true] rs' ∧
      rs'.own = Store.empty.create "/f".toList false 1 ∧ pairOfReplicas.Agree rs' ∧
      ∀ i, (rs'.peer i).map Backup.state = (emptyReplicas.peer i).map Backup.state := by
  have hbytes : XdrFormat.IsBytes "/f".toList := by
    show XdrFormat.IsBytes ['/', 'f']
    simp
  refine replicated_calls pairOfReplicas _ emptyReplicas _ _ ?_ agree_emptyReplicas rfl ?_
  · intro call hcall
    simp only [List.mem_cons, List.not_mem_nil, or_false] at hcall
    rcases hcall with rfl | rfl
    · exact ⟨hbytes, by decide⟩
    · exact ⟨hbytes, by decide⟩
  · intro r hr
    simp only [List.mem_cons, List.not_mem_nil, or_false] at hr
    rcases hr with rfl | rfl
    · exact ⟨trivial, by decide⟩
    · exact ⟨trivial, by decide⟩

end Paxos

end SimpleChubby
