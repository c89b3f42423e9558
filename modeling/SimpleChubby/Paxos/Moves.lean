import SimpleChubby.Paxos.Cluster

/-!
# What a step of the replicas can do

One relation with a constructor for each way through the step function, and the
wiring of calls that every step keeps: a call number is used once, a thread
waits for a call to the replica its loop is at, and each thread replicates what
is its own.
-/

namespace SimpleChubby

namespace Paxos

/-! ## Reading a changed state -/

namespace Cluster

variable (s : Cluster) (rank r : Nat) (t : Thread)

@[simp] theorem process_setProcess (p : Process) :
    (s.setProcess rank p).process r = if r = rank then some p else s.process r := by
  simp [setProcess, Function.update_apply]

@[simp] theorem loop_setProcess (p : Process) :
    (s.setProcess rank p).loop r t = if r = rank then p.loops t else s.loop r t := by
  unfold loop
  rw [process_setProcess]
  split_ifs <;> rfl

@[simp] theorem isLeader_setProcess (p : Process) :
    (s.setProcess rank p).isLeader r = if r = rank then p.state.isLeader else s.isLeader r := by
  unfold isLeader
  rw [process_setProcess]
  split_ifs <;> rfl

@[simp] theorem process_crash :
    (s.crash rank).process r = if r = rank then none else s.process r := by
  simp [crash, Function.update_apply]

@[simp] theorem loop_crash : (s.crash rank).loop r t = if r = rank then none else s.loop r t := by
  unfold loop
  rw [process_crash]
  split_ifs <;> rfl

@[simp] theorem isLeader_crash :
    (s.crash rank).isLeader r = if r = rank then false else s.isLeader r := by
  unfold isLeader
  rw [process_crash]
  split_ifs <;> rfl

theorem loop_eq {p : Process} (hp : s.process rank = some p) : s.loop rank t = p.loops t := by
  simp [loop, hp]

theorem isLeader_eq {p : Process} (hp : s.process rank = some p) :
    s.isLeader rank = p.state.isLeader := by
  simp [isLeader, hp]

end Cluster

@[simp] theorem Process.loops_setLoop (p : Process) (t t' : Thread) (l : Option Loop) :
    (p.setLoop t l).loops t' = if t' = t then l else p.loops t' := by
  simp [Process.setLoop, Function.update_apply]

namespace Cluster

variable (s : Cluster) (rank r : Nat) (t : Thread)

/-- The call of `init_view` the listener of a replica is serving. -/
def serving : Option Nat := (s.process rank).bind Process.serving

@[simp] theorem serving_setProcess (p : Process) :
    (s.setProcess rank p).serving r = if r = rank then p.serving else s.serving r := by
  unfold serving
  rw [process_setProcess]
  split_ifs <;> rfl

@[simp] theorem serving_crash :
    (s.crash rank).serving r = if r = rank then none else s.serving r := by
  unfold serving
  rw [process_crash]
  split_ifs <;> rfl

theorem serving_eq {p : Process} (hp : s.process rank = some p) : s.serving rank = p.serving := by
  simp [serving, hp]

/-- A process whose loops stay. -/
theorem loop_same {p p' : Process} (hp : s.process rank = some p) (h : p'.loops = p.loops) :
    (s.setProcess rank p').loop r t = s.loop r t := by
  rw [loop_setProcess]
  split_ifs with hr
  · rw [hr, h, s.loop_eq rank t hp]
  · rfl

/-- A process with the loop of one thread changed. -/
theorem loop_setLoop {p p' : Process} {t' : Thread} {l : Option Loop}
    (hp : s.process rank = some p) (h : p'.loops = (p.setLoop t' l).loops) :
    (s.setProcess rank p').loop r t = if r = rank ∧ t = t' then l else s.loop r t := by
  rw [loop_setProcess]
  by_cases hr : r = rank
  · subst hr
    rw [if_pos rfl, h, s.loop_eq r t hp, Process.loops_setLoop]
    simp
  · rw [if_neg hr, if_neg fun hcon => hr hcon.1]

section BackUp

variable {mutating : Str → Bool} {c : Command}

@[simp] theorem process_backUp : (s.backUp rank mutating c).process = s.process := by
  unfold backUp
  split_ifs <;> rfl

@[simp] theorem calls_backUp : (s.backUp rank mutating c).calls = s.calls := by
  unfold backUp
  split_ifs <;> rfl

@[simp] theorem nextXid_backUp : (s.backUp rank mutating c).nextXid = s.nextXid := by
  unfold backUp
  split_ifs <;> rfl

@[simp] theorem acked_backUp : (s.backUp rank mutating c).acked = s.acked := by
  unfold backUp
  split_ifs <;> rfl

@[simp] theorem nextNumber_backUp : (s.backUp rank mutating c).nextNumber = s.nextNumber := by
  unfold backUp
  split_ifs <;> rfl

theorem history_backUp (hc : mutating c.request = true) :
    (s.backUp rank mutating c).history r =
      if r = rank then s.history rank ++ [c] else s.history r := by
  simp [backUp, hc, Function.update_apply]

end BackUp

end Cluster

/-! ## The calls after a step -/

/-- Two stages of one call. -/
def Call.Same (c c' : Call) : Prop := c.xid = c'.xid ∧ c.dst = c'.dst ∧ c.body = c'.body

/-- The calls of `s'` are calls of `s`, some of them at another stage. -/
def Cluster.CallsFrom (s s' : Cluster) : Prop := ∀ c' ∈ s'.calls, ∃ c ∈ s.calls, c.Same c'

section Calls

variable {s : Cluster} {xid rank : Nat} {c : Call}

theorem Cluster.CallsFrom.refl (s : Cluster) : s.CallsFrom s :=
  fun c hc => ⟨c, hc, rfl, rfl, rfl⟩

theorem Cluster.mem_crash :
    c ∈ (s.crash rank).calls ↔ c ∈ s.calls ∧ (c.dst = rank → c.status.open = false) := by
  simp [Cluster.crash, imp_iff_not_or]

theorem Cluster.mem_lose : c ∈ (s.lose xid).calls ↔ c ∈ s.calls ∧ c.xid ≠ xid := by
  simp [Cluster.lose]

theorem Cluster.mem_setStatus {status : Status} :
    c ∈ (s.setStatus xid status).calls ↔
      ∃ c₀ ∈ s.calls, c = if c₀.xid = xid then { c₀ with status := status } else c₀ := by
  simp only [Cluster.setStatus, List.mem_map, eq_comm]

theorem Cluster.mem_send {body : Body} (hc : c ∈ (s.send rank body).calls) :
    c ∈ s.calls ∨ s.process rank ≠ none ∧ c = ⟨s.nextXid, rank, body, .sent⟩ := by
  simp only [Cluster.send] at hc
  split_ifs at hc with hup
  · rcases List.mem_append.mp hc with hc | hc
    · exact Or.inl hc
    · exact Or.inr ⟨Option.isSome_iff_ne_none.mp hup, List.mem_singleton.mp hc⟩
  · exact Or.inl hc

theorem Cluster.callsFrom_crash : s.CallsFrom (s.crash rank) :=
  fun c hc => ⟨c, (Cluster.mem_crash.mp hc).1, rfl, rfl, rfl⟩

theorem Cluster.callsFrom_lose : s.CallsFrom (s.lose xid) :=
  fun c hc => ⟨c, (Cluster.mem_lose.mp hc).1, rfl, rfl, rfl⟩

theorem Cluster.callsFrom_setStatus {status : Status} : s.CallsFrom (s.setStatus xid status) := by
  intro c hc
  obtain ⟨c₀, hc₀, rfl⟩ := Cluster.mem_setStatus.mp hc
  refine ⟨c₀, hc₀, ?_⟩
  split_ifs <;> exact ⟨rfl, rfl, rfl⟩

end Calls

/-- The answer to a call is in the network. -/
theorem Cluster.mem_of_answer {s : Cluster} {xid : Nat} {a : Answer}
    (h : s.answer xid = some a) : ∃ c ∈ s.calls, c.xid = xid ∧ c.status = .answered a := by
  unfold Cluster.answer at h
  split at h
  · next x d b a' hfind =>
    cases h
    have hxid := List.find?_some hfind
    exact ⟨_, List.mem_of_find?_eq_some hfind, by simpa using hxid, rfl⟩
  · cases h

/-! ## The relation -/

section Relation

variable (cfg : Config) (mutating : Str → Bool)

/-- Every way through a step. -/
inductive Moves (s : Cluster) : Label → Cluster → Prop
  | start {rank : Nat} : rank < cfg.getMaxNumClient → s.process rank = none →
      Moves s (.start rank) (s.setProcess rank .fresh)
  /-- The process ends, by itself or by a failed assertion or an exception. -/
  | crash {l : Label} {rank : Nat} {p : Process} : s.process rank = some p →
      Moves s l (s.crash rank)
  | waits {rank : Nat} {reachable : Bool} {up : List Nat} {p : Process} {st : ReplicaState} :
      s.process rank = some p → st.isLeader = p.state.isLeader →
      Moves s (.manage rank reachable up) (s.setProcess rank { p with state := st })
  | leads {rank : Nat} {reachable : Bool} {up : List Nat} {p : Process} :
      s.process rank = some p → p.loops .manager = none → p.state.isLeader = false →
      run cfg rank reachable up p.state = .leads (p.state.lead cfg rank) →
      Moves s (.manage rank reachable up) (s.setProcess rank
        ({ p with state := p.state.lead cfg rank }.setLoop .manager
          (some ⟨.newView (p.state.view.ledBy cfg rank), 0, none⟩)))
  | chooses {rank chosen : Nat} {reachable : Bool} {up : List Nat} {p : Process} :
      s.process rank = some p →
      Moves s (.manage rank reachable up)
        (s.setProcess rank { p with notifying := some (chosen, none) })
  | notifies {rank chosen : Nat} {p : Process} :
      s.process rank = some p → p.notifying = some (chosen, none) →
      Moves s (.notify rank true) ((s.send chosen .initView).setProcess rank
        { p with notifying := some (chosen, some s.nextXid), locked := chosen :: p.locked })
  | notified {rank chosen xid : Nat} {val : Bool} {p : Process} :
      s.process rank = some p → p.notifying = some (chosen, some xid) →
      s.answer xid = some (.succeed val) →
      Moves s (.notified rank) ((s.lose xid).setProcess rank
        { p with
          state := p.state.notified cfg chosen val
          notifying := none
          locked := p.locked.erase chosen })
  /-- The loop passes over the replica itself, or over one it cannot reach. -/
  | passes {rank i : Nat} {t : Thread} {up : Bool} {body : Body} {p : Process} :
      s.process rank = some p → p.loops t = some ⟨body, i, none⟩ → i < cfg.getMaxNumClient →
      i = rank ∨ up = false →
      Moves s (.replicateCommand rank t up)
        (s.setProcess rank (p.setLoop t (some ⟨body, i + 1, none⟩)))
  | sends {rank i : Nat} {t : Thread} {body : Body} {p : Process} :
      s.process rank = some p → p.loops t = some ⟨body, i, none⟩ → i < cfg.getMaxNumClient →
      i ≠ rank →
      Moves s (.replicateCommand rank t true) ((s.send i body).setProcess rank
        ({ p with locked := i :: p.locked }.setLoop t (some ⟨body, i, some s.nextXid⟩)))
  | resumes {rank i xid : Nat} {t : Thread} {body : Body} {a : Answer} {p : Process} :
      s.process rank = some p → p.loops t = some ⟨body, i, some xid⟩ → s.answer xid = some a →
      Moves s (.resume rank t) ((s.lose xid).setProcess rank
        ({ p with locked := p.locked.erase i }.setLoop t (some ⟨body, i + 1, none⟩)))
  /-- The broadcast of a new leader is given up: the RPC library answers for `init_view`. -/
  | abandons {rank xid : Nat} {p : Process} :
      s.process rank = some p → p.serving = some xid →
      Moves s (.fail rank .listener) ((s.setStatus xid (.answered .garbage)).setProcess rank
        { p.setLoop .listener none with serving := none })
  | throws {rank : Nat} {p : Process} : s.process rank = some p →
      Moves s (.fail rank .client) (s.setProcess rank (p.setLoop .client none))
  | initializes {rank i : Nat} {body : Body} {p : Process} : s.process rank = some p →
      p.loops .manager = some ⟨body, i, none⟩ → cfg.getMaxNumClient ≤ i →
      Moves s (.finish rank .manager) (s.setProcess rank
        { p.setLoop .manager none with state := { p.state with isInitialized := true } })
  | promoted {rank i xid : Nat} {body : Body} {p : Process} : s.process rank = some p →
      p.serving = some xid → p.loops .listener = some ⟨body, i, none⟩ →
      cfg.getMaxNumClient ≤ i →
      Moves s (.finish rank .listener)
        ((s.setStatus xid (.answered (.succeed true))).setProcess rank
          { p.setLoop .listener none with
            state := { p.state with isInitialized := true }
            serving := none })
  | commits {rank i : Nat} {c : Command} {p : Process} : s.process rank = some p →
      p.loops .client = some ⟨.command c, i, none⟩ → cfg.getMaxNumClient ≤ i →
      Moves s (.finish rank .client)
        { (s.backUp rank mutating c).setProcess rank (p.setLoop .client none) with
          acked := s.acked ++ [c] }
  | follows {c : Call} {view : View} {p : Process} : c ∈ s.calls → c.status = .sent →
      s.process c.dst = some p → c.body = .newView view →
      Moves s (.serve c.xid) ((s.setStatus c.xid (.answered .replicated)).setProcess c.dst
        { p with state := p.state.newView view })
  | backsUp {c : Call} {command : Command} {p : Process} : c ∈ s.calls → c.status = .sent →
      s.process c.dst = some p → c.body = .command command →
      Moves s (.serve c.xid)
        ((s.setStatus c.xid (.answered .replicated)).backUp c.dst mutating command)
  | refuses {c : Call} {p : Process} : c ∈ s.calls → c.status = .sent →
      s.process c.dst = some p → p.serving = none → c.body = .initView →
      p.state.isLeader = true →
      Moves s (.serve c.xid) (s.setStatus c.xid (.answered (.succeed false)))
  | accepts {c : Call} {p : Process} : c ∈ s.calls → c.status = .sent →
      s.process c.dst = some p → p.serving = none → c.body = .initView →
      p.state.isLeader = false →
      Moves s (.serve c.xid) ((s.setStatus c.xid .served).setProcess c.dst
        { p.setLoop .listener (some ⟨.newView (p.state.view.ledBy cfg c.dst), 0, none⟩) with
          state := p.state.lead cfg c.dst
          serving := some c.xid })
  | loses {xid : Nat} : Moves s (.lose xid) (s.lose xid)
  | declines {rank : Nat} {request : Str} {p : Process} : s.process rank = some p →
      p.state.isLeader = false → Moves s (.execute rank request) s
  | executes {rank : Nat} {request : Str} {p : Process} : s.process rank = some p →
      p.loops .client = none → p.state.isLeader = true →
      Moves s (.execute rank request) { s.setProcess rank
          (p.setLoop .client (some ⟨.command ⟨s.nextNumber, request⟩, 0, none⟩)) with
        nextNumber := s.nextNumber + 1 }

end Relation

section Inversion

variable {cfg : Config} {mutating : Str → Bool} {s s' : Cluster}

/-- What `run` does to a replica that is not to be aborted. -/
theorem run_cases (cfg : Config) (self : Nat) (reachable : Bool) (up : List Nat)
    (st : ReplicaState) :
    match run cfg self reachable up st with
    | .abort => True
    | .waits st' => st'.isLeader = st.isLeader
    | .leads st' => st' = st.lead cfg self ∧ st.isLeader = false
    | .chooses _ => True := by
  unfold run notifyNewLeader
  split_ifs with hmode
  · cases hdown : isLeaderDown cfg self reachable st with
    | none => trivial
    | some down =>
      cases down with
      | false => trivial
      | true =>
        have hnot : st.isLeader = false := by
          unfold isLeaderDown at hdown
          split_ifs at hdown with hleader <;> simp_all
        dsimp only
        split_ifs with hself
        · exact ⟨rfl, hnot⟩
        · trivial
  · cases isLeaderDown cfg self reachable st with
    | none => trivial
    | some down => cases down <;> rfl

theorem manage_moves {rank : Nat} {reachable : Bool} {up : List Nat} {p : Process}
    (hp : s.process rank = some p) (h : manage cfg rank reachable up p s = some s') :
    Moves cfg mutating s (.manage rank reachable up) s' := by
  have hrun := run_cases cfg rank reachable up p.state
  unfold manage at h
  split_ifs at h with hbusy
  simp only [Bool.or_eq_true, not_or, Bool.not_eq_true, Option.isSome_eq_false_iff,
    Option.isNone_iff_eq_none] at hbusy
  cases hturn : run cfg rank reachable up p.state with
  | abort =>
    rw [hturn] at h
    cases h
    exact .crash hp
  | waits st =>
    rw [hturn] at h hrun
    cases h
    exact .waits hp hrun
  | leads st =>
    rw [hturn] at h hrun
    cases h
    obtain ⟨rfl, hnot⟩ := hrun
    exact .leads hp hbusy.2 hnot hturn
  | chooses chosen =>
    rw [hturn] at h
    cases h
    exact .chooses hp

theorem notify_moves {rank : Nat} {up : Bool} {p : Process} (hp : s.process rank = some p)
    (h : notify rank up p s = some s') : Moves cfg mutating s (.notify rank up) s' := by
  unfold notify at h
  split at h
  · next chosen hnotifying =>
    split_ifs at h with hlocked hup
    · cases h
      subst hup
      exact .notifies hp hnotifying
    · cases h
      exact .crash hp
  · cases h

theorem notified_moves {rank : Nat} {p : Process} (hp : s.process rank = some p)
    (h : notified cfg rank p s = some s') : Moves cfg mutating s (.notified rank) s' := by
  unfold notified at h
  split at h
  · next chosen xid hnotifying =>
    split at h
    · next val hanswer =>
      cases h
      exact .notified hp hnotifying hanswer
    · cases h
      exact .crash hp
    · cases h
  · cases h

theorem replicateCommand_moves {rank : Nat} {t : Thread} {up : Bool} {p : Process}
    (hp : s.process rank = some p) (h : replicateCommand cfg rank t up p s = some s') :
    Moves cfg mutating s (.replicateCommand rank t up) s' := by
  unfold replicateCommand at h
  split at h
  · next body i hloop =>
    split_ifs at h with hend hself hlocked hup
    · cases h
      exact .passes hp hloop (Nat.lt_of_not_le hend) (Or.inl hself)
    · cases h
      subst hup
      exact .sends hp hloop (Nat.lt_of_not_le hend) hself
    · cases h
      exact .passes hp hloop (Nat.lt_of_not_le hend) (Or.inr (by simpa using hup))
  · cases h

theorem resume_moves {rank : Nat} {t : Thread} {p : Process} (hp : s.process rank = some p)
    (h : resume rank t p s = some s') : Moves cfg mutating s (.resume rank t) s' := by
  unfold resume at h
  split at h
  · next body i xid hloop =>
    split_ifs at h with hanswer
    cases h
    obtain ⟨a, ha⟩ := Option.isSome_iff_exists.mp hanswer
    exact .resumes hp hloop ha
  · cases h

theorem fail_moves {rank : Nat} {t : Thread} {p : Process} (hp : s.process rank = some p)
    (h : fail rank p s t = some s') : Moves cfg mutating s (.fail rank t) s' := by
  unfold fail at h
  split at h
  · split at h
    · cases h
      exact .crash hp
    · cases h
      exact .crash hp
    · cases h
  · split at h
    · next xid _ _ _ hserving _ =>
      cases h
      exact .abandons hp hserving
    · cases h
  · split at h
    · cases h
      exact .throws hp
    · cases h

theorem finish_moves {rank : Nat} {t : Thread} {p : Process} (hp : s.process rank = some p)
    (h : finish cfg mutating rank p s t = some s') :
    Moves cfg mutating s (.finish rank t) s' := by
  unfold finish at h
  split at h
  · split at h
    · next body i hloop =>
      split_ifs at h with hend
      cases h
      exact .initializes hp hloop (Nat.le_of_not_lt hend)
    · cases h
  · split at h
    · next xid body i hserving hloop =>
      split_ifs at h with hend
      cases h
      exact .promoted hp hserving hloop (Nat.le_of_not_lt hend)
    · cases h
  · split at h
    · next c i hloop =>
      split_ifs at h with hend
      cases h
      exact .commits hp hloop (Nat.le_of_not_lt hend)
    · cases h

theorem serve_moves {c : Call} {p : Process} (hc : c ∈ s.calls) (hsent : c.status = .sent)
    (hp : s.process c.dst = some p) (h : serve cfg mutating c p s = some s') :
    Moves cfg mutating s (.serve c.xid) s' := by
  unfold serve at h
  by_cases hserving : p.serving.isSome = true
  · rw [if_pos hserving] at h
    cases h
  rw [if_neg hserving] at h
  rw [Bool.not_eq_true, Option.isSome_eq_false_iff, Option.isNone_iff_eq_none] at hserving
  split at h
  · next view hbody =>
    cases h
    exact .follows hc hsent hp hbody
  · next command hbody =>
    cases h
    exact .backsUp hc hsent hp hbody
  · next hbody =>
    split_ifs at h with hleader
    · cases h
      exact .refuses hc hsent hp hserving hbody hleader
    · cases h
      exact .accepts hc hsent hp hserving hbody (by simpa using hleader)

theorem execute_moves {rank : Nat} {request : Str} {p : Process} (hp : s.process rank = some p)
    (h : execute rank request p s = some s') :
    Moves cfg mutating s (.execute rank request) s' := by
  unfold execute at h
  split_ifs at h with hbusy hleader
  · cases h
    rw [Bool.not_eq_true, Option.isSome_eq_false_iff, Option.isNone_iff_eq_none] at hbusy
    exact .executes hp hbusy hleader
  · cases h
    exact .declines hp (by simpa using hleader)

/-- Every step is one of the relation. -/
theorem step_moves {l : Label} (h : step cfg mutating l s = some s') :
    Moves cfg mutating s l s' := by
  cases l with
  | start rank =>
    simp only [step] at h
    split_ifs at h with hstart
    cases h
    exact .start hstart.1 (Option.isNone_iff_eq_none.mp hstart.2)
  | crash rank =>
    simp only [step] at h
    split_ifs at h with hup
    cases h
    obtain ⟨p, hp⟩ := Option.isSome_iff_exists.mp hup
    exact .crash hp
  | manage rank reachable up =>
    obtain ⟨p, hp, h⟩ := Option.bind_eq_some_iff.mp h
    exact manage_moves hp h
  | notify rank up =>
    obtain ⟨p, hp, h⟩ := Option.bind_eq_some_iff.mp h
    exact notify_moves hp h
  | notified rank =>
    obtain ⟨p, hp, h⟩ := Option.bind_eq_some_iff.mp h
    exact notified_moves hp h
  | replicateCommand rank t up =>
    obtain ⟨p, hp, h⟩ := Option.bind_eq_some_iff.mp h
    exact replicateCommand_moves hp h
  | resume rank t =>
    obtain ⟨p, hp, h⟩ := Option.bind_eq_some_iff.mp h
    exact resume_moves hp h
  | fail rank t =>
    obtain ⟨p, hp, h⟩ := Option.bind_eq_some_iff.mp h
    exact fail_moves hp h
  | finish rank t =>
    obtain ⟨p, hp, h⟩ := Option.bind_eq_some_iff.mp h
    exact finish_moves hp h
  | serve xid =>
    obtain ⟨c, hfind, hserve⟩ := Option.bind_eq_some_iff.mp h
    obtain ⟨p, hp, hserve⟩ := Option.bind_eq_some_iff.mp hserve
    have hc := List.find?_some hfind
    simp only [Bool.and_eq_true, beq_iff_eq] at hc
    obtain ⟨rfl, hsent⟩ := hc
    exact serve_moves (List.mem_of_find?_eq_some hfind) hsent hp hserve
  | lose xid =>
    cases h
    exact .loses
  | execute rank request =>
    obtain ⟨p, hp, h⟩ := Option.bind_eq_some_iff.mp h
    exact execute_moves hp h

end Inversion

/-! ## The wiring of the calls -/

/-- What a thread replicates: the client commands, the others new views. -/
def OwnBody : Thread → Body → Prop
  | .client, .command _ => True
  | .manager, .newView _ => True
  | .listener, .newView _ => True
  | _, _ => False

/-- The number has been used, and belongs to a call with this destination and body. -/
def Cluster.Awaits (s : Cluster) (xid dst : Nat) (body : Body) : Prop :=
  xid < s.nextXid ∧ ∀ c ∈ s.calls, c.xid = xid → c.dst = dst ∧ c.body = body

/-- The wiring of the calls. -/
structure Wired (cfg : Config) (s : Cluster) : Prop where
  ranks : ∀ r, s.process r ≠ none → r < cfg.getMaxNumClient
  fresh : ∀ c ∈ s.calls, c.xid < s.nextXid
  distinct : ∀ c ∈ s.calls, ∀ c' ∈ s.calls, c.xid = c'.xid → c.dst = c'.dst ∧ c.body = c'.body
  bodies : ∀ r t l, s.loop r t = some l → OwnBody t l.body
  waits : ∀ r t l xid, s.loop r t = some l → l.call = some xid → s.Awaits xid l.rank l.body
  serves : ∀ r xid, s.serving r = some xid → s.Awaits xid r .initView

section Wiring

variable {cfg : Config} {mutating : Str → Bool} {s s' : Cluster}

theorem Cluster.Awaits.mono {xid dst : Nat} {body : Body} (h : s.Awaits xid dst body)
    (hcalls : s.CallsFrom s') (hnext : s'.nextXid = s.nextXid) : s'.Awaits xid dst body := by
  refine ⟨hnext ▸ h.1, fun c' hc' hxid => ?_⟩
  obtain ⟨c, hc, hsame, hdst, hbody⟩ := hcalls c' hc'
  rw [← hdst, ← hbody]
  exact h.2 c hc (hsame.trans hxid)

/-- A call in the network has its number to itself. -/
theorem Wired.awaits (hw : Wired cfg s) {call : Call} (hc : call ∈ s.calls) :
    s.Awaits call.xid call.dst call.body :=
  ⟨hw.fresh call hc, fun c' hc' hxid => hw.distinct c' hc' call hc hxid⟩

/-- What is enough for a step that sends nothing. -/
theorem Wired.keep (h : Wired cfg s) (hcalls : s.CallsFrom s') (hnext : s'.nextXid = s.nextXid)
    (hranks : ∀ r, s'.process r ≠ none → s.process r ≠ none ∨ r < cfg.getMaxNumClient)
    (hloops : ∀ r t l, s'.loop r t = some l → s.loop r t = some l ∨
      OwnBody t l.body ∧ ∀ xid, l.call = some xid → s.Awaits xid l.rank l.body)
    (hserving : ∀ r xid, s'.serving r = some xid → s.serving r = some xid ∨
      s.Awaits xid r .initView) : Wired cfg s' where
  ranks r hr := by
    rcases hranks r hr with hr | hr
    · exact h.ranks r hr
    · exact hr
  fresh c' hc' := by
    obtain ⟨c, hc, hxid, _, _⟩ := hcalls c' hc'
    rw [← hxid, hnext]
    exact h.fresh c hc
  distinct c₁ hc₁ c₂ hc₂ hxid := by
    obtain ⟨c, hc, hxid₁, hdst₁, hbody₁⟩ := hcalls c₁ hc₁
    obtain ⟨c', hc', hxid₂, hdst₂, hbody₂⟩ := hcalls c₂ hc₂
    rw [← hdst₁, ← hdst₂, ← hbody₁, ← hbody₂]
    exact h.distinct c hc c' hc' (by rw [hxid₁, hxid₂, hxid])
  bodies r t l hl := by
    rcases hloops r t l hl with hl | hl
    · exact h.bodies r t l hl
    · exact hl.1
  waits r t l xid hl hcall := by
    rcases hloops r t l hl with hl | hl
    · exact (h.waits r t l xid hl hcall).mono hcalls hnext
    · exact (hl.2 xid hcall).mono hcalls hnext
  serves r xid hxid := by
    rcases hserving r xid hxid with hxid | hawaits
    · exact (h.serves r xid hxid).mono hcalls hnext
    · exact hawaits.mono hcalls hnext

/-- A call is sent under a number that has not been used. -/
theorem Wired.send (h : Wired cfg s) (dst : Nat) (body : Body) :
    Wired cfg (s.send dst body) ∧ (s.send dst body).Awaits s.nextXid dst body := by
  have hnext : (s.send dst body).nextXid = s.nextXid + 1 := rfl
  have hawaits : ∀ {xid d : Nat} {b : Body}, s.Awaits xid d b →
      (s.send dst body).Awaits xid d b := by
    rintro xid d b ⟨hlt, hcalls⟩
    refine ⟨by omega, fun c hc hxid => ?_⟩
    rcases Cluster.mem_send hc with hc | ⟨_, rfl⟩
    · exact hcalls c hc hxid
    · exact absurd hxid (Nat.ne_of_gt hlt)
  have hself : (s.send dst body).Awaits s.nextXid dst body := by
    refine ⟨by omega, fun c hc hxid => ?_⟩
    rcases Cluster.mem_send hc with hc | ⟨_, rfl⟩
    · exact absurd hxid (Nat.ne_of_lt (h.fresh c hc))
    · exact ⟨rfl, rfl⟩
  refine ⟨⟨h.ranks, fun c hc => ?_, fun c hc c' hc' hxid => ?_, h.bodies,
    fun r t l xid hl hcall => hawaits (h.waits r t l xid hl hcall),
    fun r xid hxid => hawaits (h.serves r xid hxid)⟩, hself⟩
  · rcases Cluster.mem_send hc with hc | ⟨_, rfl⟩
    · have := h.fresh c hc
      omega
    · exact Nat.lt_succ_self _
  · rcases Cluster.mem_send hc with hc | ⟨_, rfl⟩
    · rcases Cluster.mem_send hc' with hc' | ⟨_, rfl⟩
      · exact h.distinct c hc c' hc' hxid
      · exact absurd hxid (Nat.ne_of_lt (h.fresh c hc))
    · obtain ⟨hdst, hbody⟩ := hself.2 c' hc' hxid.symm
      exact ⟨hdst.symm, hbody.symm⟩

/-- What the step of one running replica may change: its loops end, go on, or
    begin with what is its own. -/
theorem Wired.own (h : Wired cfg s) {rank : Nat} {p p' : Process} (hp : s.process rank = some p)
    (hloops : ∀ t l, p'.loops t = some l → p.loops t = some l ∨
      OwnBody t l.body ∧ ∀ xid, l.call = some xid → s.Awaits xid l.rank l.body)
    (hserving : ∀ xid, p'.serving = some xid → p.serving = some xid ∨
      s.Awaits xid rank .initView) : Wired cfg (s.setProcess rank p') := by
  refine h.keep (.refl s) rfl (fun r hr => ?_) (fun r t l hl => ?_) fun r xid hxid => ?_
  · rw [Cluster.process_setProcess] at hr
    split_ifs at hr with hrank
    · rw [hrank, hp]
      exact Or.inl (Option.some_ne_none p)
    · exact Or.inl hr
  · rw [Cluster.loop_setProcess] at hl
    split_ifs at hl with hrank
    · rw [hrank, s.loop_eq rank t hp]
      exact hloops t l hl
    · exact Or.inl hl
  · rw [Cluster.serving_setProcess] at hxid
    split_ifs at hxid with hrank
    · rw [hrank, s.serving_eq rank hp]
      exact hserving xid hxid
    · exact Or.inl hxid

/-- A loop of the process is replaced. -/
theorem Process.loops_of_setLoop {p : Process} {t t' : Thread} {l : Option Loop} {l' : Loop}
    (h : (p.setLoop t l).loops t' = some l') : p.loops t' = some l' ∨ t' = t ∧ l = some l' := by
  rw [Process.loops_setLoop] at h
  split_ifs at h with ht
  · exact Or.inr ⟨ht, h⟩
  · exact Or.inl h

/-- A loop of the process begins with what is its own, or goes on without a call. -/
theorem Wired.turns (h : Wired cfg s) {rank : Nat} {p p' : Process} (hp : s.process rank = some p)
    {t : Thread} {body : Body} {i : Nat}
    (hloops : p'.loops = (p.setLoop t (some ⟨body, i, none⟩)).loops)
    (hserving : ∀ xid, p'.serving = some xid → p.serving = some xid ∨
      s.Awaits xid rank .initView) (hbody : OwnBody t body) :
    Wired cfg (s.setProcess rank p') := by
  refine h.own hp (fun t' l hl => ?_) hserving
  rw [hloops] at hl
  rcases Process.loops_of_setLoop hl with hl | ⟨rfl, hnew⟩
  · exact Or.inl hl
  · cases hnew
    exact Or.inr ⟨hbody, fun _ hcall => by cases hcall⟩

/-- A loop of the process ends. -/
theorem Wired.ends (h : Wired cfg s) {rank : Nat} {p p' : Process} (hp : s.process rank = some p)
    {t : Thread} (hloops : p'.loops = (p.setLoop t none).loops)
    (hserving : ∀ xid, p'.serving = some xid → p.serving = some xid) :
    Wired cfg (s.setProcess rank p') := by
  refine h.own hp (fun t' l hl => Or.inl ?_) fun xid hxid => Or.inl (hserving xid hxid)
  rw [hloops] at hl
  rcases Process.loops_of_setLoop hl with hl | ⟨_, hnew⟩
  · exact hl
  · cases hnew

theorem Wired.calls (h : Wired cfg s) (hcalls : s.CallsFrom s') (hnext : s'.nextXid = s.nextXid)
    (hprocess : s'.process = s.process) : Wired cfg s' := by
  refine h.keep hcalls hnext (fun r hr => Or.inl (hprocess ▸ hr)) (fun r t l hl => Or.inl ?_)
    fun r xid hxid => Or.inl ?_
  · unfold Cluster.loop at hl ⊢
    rwa [hprocess] at hl
  · unfold Cluster.serving at hxid ⊢
    rwa [hprocess] at hxid

theorem Wired.backUp (h : Wired cfg s) (rank : Nat) (c : Command) :
    Wired cfg (s.backUp rank mutating c) :=
  h.calls (by rw [Cluster.CallsFrom, Cluster.calls_backUp]; exact Cluster.CallsFrom.refl s)
    (s.nextXid_backUp rank) (s.process_backUp rank)

/-- Every step keeps the wiring. -/
theorem Moves.wired {l : Label} (h : Moves cfg mutating s l s') (hw : Wired cfg s) :
    Wired cfg s' := by
  cases h with
  | @start rank hrank _ =>
    refine hw.keep (.refl s) rfl (fun r hr => ?_) (fun r t l hl => ?_) fun r xid hxid => ?_
    · rw [Cluster.process_setProcess] at hr
      split_ifs at hr with hr'
      · exact Or.inr (hr' ▸ hrank)
      · exact Or.inl hr
    · rw [Cluster.loop_setProcess] at hl
      split_ifs at hl
      · cases hl
      · exact Or.inl hl
    · rw [Cluster.serving_setProcess] at hxid
      split_ifs at hxid
      · cases hxid
      · exact Or.inl hxid
  | crash _ =>
    refine hw.keep Cluster.callsFrom_crash rfl (fun r hr => ?_) (fun r t l hl => ?_)
      fun r xid hxid => ?_
    · rw [Cluster.process_crash] at hr
      split_ifs at hr
      · exact absurd rfl hr
      · exact Or.inl hr
    · rw [Cluster.loop_crash] at hl
      split_ifs at hl
      exact Or.inl hl
    · rw [Cluster.serving_crash] at hxid
      split_ifs at hxid
      exact Or.inl hxid
  | waits hp _ => exact hw.own hp (fun _ _ hl => Or.inl hl) fun _ hxid => Or.inl hxid
  | leads hp _ _ _ => exact hw.turns hp rfl (fun _ hxid => Or.inl hxid) trivial
  | chooses hp => exact hw.own hp (fun _ _ hl => Or.inl hl) fun _ hxid => Or.inl hxid
  | notifies hp _ =>
    exact (hw.send _ _).1.own hp (fun _ _ hl => Or.inl hl) fun _ hxid => Or.inl hxid
  | notified hp _ _ =>
    exact (hw.calls Cluster.callsFrom_lose rfl rfl).own hp (fun _ _ hl => Or.inl hl)
      fun _ hxid => Or.inl hxid
  | @passes rank i t up body p hp hloop _ _ =>
    have hbody := hw.bodies rank t _ ((s.loop_eq rank t hp).trans hloop)
    exact hw.turns hp rfl (fun _ hxid => Or.inl hxid) hbody
  | @sends rank i t body p hp hloop _ _ =>
    obtain ⟨hsent, hawaits⟩ := hw.send i body
    refine hsent.own hp (fun t' l hl => ?_) fun _ hxid => Or.inl hxid
    rcases Process.loops_of_setLoop hl with hl | ⟨rfl, hnew⟩
    · exact Or.inl hl
    · cases hnew
      have hbody := hw.bodies rank t' _ ((s.loop_eq rank t' hp).trans hloop)
      refine Or.inr ⟨hbody, fun xid hcall => ?_⟩
      cases hcall
      exact hawaits
  | @resumes rank i xid t body a p hp hloop _ =>
    have hbody := hw.bodies rank t _ ((s.loop_eq rank t hp).trans hloop)
    exact (hw.calls Cluster.callsFrom_lose rfl rfl).turns hp rfl (fun _ hxid => Or.inl hxid) hbody
  | abandons hp _ =>
    exact (hw.calls Cluster.callsFrom_setStatus rfl rfl).ends hp rfl fun _ hxid => by cases hxid
  | throws hp => exact hw.ends hp rfl fun _ hxid => hxid
  | initializes hp _ _ => exact hw.ends hp rfl fun _ hxid => hxid
  | promoted hp _ _ _ =>
    exact (hw.calls Cluster.callsFrom_setStatus rfl rfl).ends hp rfl fun _ hxid => by cases hxid
  | @commits rank i c p hp _ _ =>
    have hp' : (s.backUp rank mutating c).process rank = some p := by
      rw [Cluster.process_backUp]
      exact hp
    have hown :
        Wired cfg ((s.backUp rank mutating c).setProcess rank (p.setLoop .client none)) :=
      (hw.backUp rank c).ends hp' rfl fun _ hxid => hxid
    exact hown.calls (.refl _) rfl rfl
  | follows _ _ hp _ =>
    exact (hw.calls Cluster.callsFrom_setStatus rfl rfl).own hp (fun _ _ hl => Or.inl hl)
      fun _ hxid => Or.inl hxid
  | backsUp _ _ _ _ => exact (hw.calls Cluster.callsFrom_setStatus rfl rfl).backUp _ _
  | refuses _ _ _ _ _ _ => exact hw.calls Cluster.callsFrom_setStatus rfl rfl
  | @accepts c p hc _ hp _ hbody _ =>
    refine (hw.calls Cluster.callsFrom_setStatus rfl rfl).turns hp rfl (fun xid hxid => ?_) trivial
    cases hxid
    refine Or.inr (Cluster.Awaits.mono ?_ Cluster.callsFrom_setStatus rfl)
    refine ⟨hw.fresh c hc, fun c' hc' hxid => ?_⟩
    obtain ⟨hdst, hbody'⟩ := hw.distinct c' hc' c hc hxid
    exact ⟨hdst, hbody'.trans hbody⟩
  | loses => exact hw.calls Cluster.callsFrom_lose rfl rfl
  | declines _ _ => exact hw
  | @executes rank request p hp _ _ =>
    have hown : Wired cfg (s.setProcess rank
        (p.setLoop .client (some ⟨.command ⟨s.nextNumber, request⟩, 0, none⟩))) :=
      hw.turns hp rfl (fun _ hxid => Or.inl hxid) trivial
    exact hown.calls (.refl _) rfl rfl

theorem wired_initial : Wired cfg .initial where
  ranks r hr := absurd rfl hr
  fresh c hc := absurd hc List.not_mem_nil
  distinct c hc := absurd hc List.not_mem_nil
  bodies r t l hl := by cases hl
  waits r t l xid hl := by cases hl
  serves r xid hxid := by cases hxid

end Wiring

end Paxos

end SimpleChubby
