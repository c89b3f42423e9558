import SimpleChubby.Paxos.Moves

/-!
# Agreement of the replicas

A leader passes over a replica it cannot reach, and nothing in a backup checks
for the gap when the next command arrives. The histories of the live replicas
stay comparable in the runs in which a command is only taken up while they are
equal and no other command is under way.
-/

namespace SimpleChubby

namespace Paxos

/-- Whether a call makes the callee run a command that changes its back store. -/
def Body.mutates (mutating : Str → Bool) : Body → Bool
  | .command c => mutating c.request
  | _ => false

/-- One of the requests that two replicas have run is a prefix of the other. -/
def Comparable (l l' : List Command) : Prop :=
  l.map Command.request <+: l'.map Command.request ∨
    l'.map Command.request <+: l.map Command.request

instance (l l' : List Command) : Decidable (Comparable l l') :=
  inferInstanceAs (Decidable (_ ∨ _))

section Statement

variable (cfg : Config) (mutating : Str → Bool) (s : Cluster)

/-- A call of `replicate` is in the network, or a thread waits for one. -/
def ReplicateInFlight : Prop :=
  (∃ c ∈ s.calls, c.status.open = true ∧ c.body ≠ .initView) ∨
    ∃ r < cfg.getMaxNumClient, ∃ t ∈ [Thread.manager, .listener, .client],
      ∃ l ∈ s.loop r t, l.call ≠ none

instance : Decidable (ReplicateInFlight cfg s) := inferInstanceAs (Decidable (_ ∨ _))

/-- While no call of `replicate` is in flight, what two live replicas have run
    is comparable. -/
def ReplicaAgreement : Prop :=
  ¬ ReplicateInFlight cfg s → ∀ i < cfg.getMaxNumClient, ∀ j < cfg.getMaxNumClient,
    s.process i ≠ none → s.process j ≠ none → Comparable (s.history i) (s.history j)

/-- A command that changes the back stores is under way. -/
def Busy : Prop :=
  (∃ r < cfg.getMaxNumClient, ∃ l ∈ s.loop r .client, l.body.mutates mutating = true) ∨
    ∃ c ∈ s.calls, c.status = .sent ∧ c.body.mutates mutating = true

instance : Decidable (Busy cfg mutating s) := inferInstanceAs (Decidable (_ ∨ _))

/-- A leader takes up a command only when no other is under way and every live
    replica has run what the leader has; a replica starts only when no command
    is under way, and no live replica lacks what it has run. -/
def Steady : Label → Prop
  | .execute r request => mutating request = true → s.isLeader r = true →
      ¬ Busy cfg mutating s ∧
        ∀ j < cfg.getMaxNumClient, s.process j ≠ none → s.history j = s.history r
  | .start r => ¬ Busy cfg mutating s ∧
      ∀ j < cfg.getMaxNumClient, s.process j ≠ none → s.history r <+: s.history j
  | _ => True

instance : ∀ l, Decidable (Steady cfg mutating s l)
  | .execute r request => inferInstanceAs (Decidable (mutating request = true →
      s.isLeader r = true → ¬ Busy cfg mutating s ∧
        ∀ j < cfg.getMaxNumClient, s.process j ≠ none → s.history j = s.history r))
  | .start r => inferInstanceAs (Decidable (¬ Busy cfg mutating s ∧
      ∀ j < cfg.getMaxNumClient, s.process j ≠ none → s.history r <+: s.history j))
  | .crash _ => inferInstanceAs (Decidable True)
  | .manage _ _ _ => inferInstanceAs (Decidable True)
  | .notify _ _ => inferInstanceAs (Decidable True)
  | .notified _ => inferInstanceAs (Decidable True)
  | .replicateCommand _ _ _ => inferInstanceAs (Decidable True)
  | .resume _ _ => inferInstanceAs (Decidable True)
  | .fail _ _ => inferInstanceAs (Decidable True)
  | .finish _ _ => inferInstanceAs (Decidable True)
  | .serve _ => inferInstanceAs (Decidable True)
  | .lose _ => inferInstanceAs (Decidable True)

end Statement

/-! ## The invariant -/

/-- The loop has not called the replica `j` yet. -/
def Loop.Unvisited (l : Loop) (j : Nat) : Prop := if l.call = none then l.rank ≤ j else l.rank < j

/-- The command `c` is on its way to replicas that have run `base`. -/
structure UnderWay (mutating : Str → Bool) (s : Cluster) (base : List Command) (c : Command) :
    Prop where
  histories : ∀ j, s.process j ≠ none → s.history j = base ∨ s.history j = base ++ [c]
  sent : ∀ call ∈ s.calls, call.status = .sent → call.body.mutates mutating = true →
    call.body = .command c ∧ s.history call.dst = base
  once : ∀ call ∈ s.calls, ∀ call' ∈ s.calls, call.status = .sent → call'.status = .sent →
    call.body.mutates mutating = true → call'.body.mutates mutating = true →
    call.dst = call'.dst → call.xid = call'.xid
  loops : ∀ r l, s.loop r .client = some l → l.body.mutates mutating = true →
    l.body = .command c ∧ s.history r = base ∧
      (∀ j, s.process j ≠ none → l.Unvisited j → s.history j = base) ∧
      ∀ call ∈ s.calls, call.status = .sent → call.body.mutates mutating = true →
        call.dst ≠ r ∧ ¬ l.Unvisited call.dst
  one : ∀ r r' l l', s.loop r .client = some l → s.loop r' .client = some l' →
    l.body.mutates mutating = true → l'.body.mutates mutating = true → r = r'

/-- The invariant of steady runs. -/
structure AgreeOk (cfg : Config) (mutating : Str → Bool) (s : Cluster) : Prop where
  wired : Wired cfg s
  chain : ∀ i j, s.process i ≠ none → s.process j ≠ none →
    s.history i <+: s.history j ∨ s.history j <+: s.history i
  underWay : Busy cfg mutating s → ∃ base c, UnderWay mutating s base c

section Invariant

variable {cfg : Config} {mutating : Str → Bool} {s s' : Cluster} {base : List Command}
  {c : Command}

theorem UnderWay.chain (h : UnderWay mutating s base c) (i j : Nat) (hi : s.process i ≠ none)
    (hj : s.process j ≠ none) : s.history i <+: s.history j ∨ s.history j <+: s.history i := by
  rcases h.histories i hi with hi | hi
  · rcases h.histories j hj with hj | hj
    · rw [hi, hj]
      exact Or.inl (List.prefix_refl _)
    · rw [hi, hj]
      exact Or.inl (List.prefix_append _ _)
  · rcases h.histories j hj with hj | hj
    · rw [hi, hj]
      exact Or.inr (List.prefix_append _ _)
    · rw [hi, hj]
      exact Or.inl (List.prefix_refl _)

/-- What a step may change that makes no replica run a command and takes none up:
    the client threads go on or stop, and calls are sent on. -/
structure Calmer (mutating : Str → Bool) (s s' : Cluster) : Prop where
  history : s'.history = s.history
  live : ∀ j, s'.process j ≠ none → s.process j ≠ none
  loops : ∀ r l', s'.loop r .client = some l' → l'.body.mutates mutating = true →
    ∃ l, s.loop r .client = some l ∧ l.body = l'.body ∧ ∀ j, l'.Unvisited j → l.Unvisited j
  calls : ∀ call ∈ s'.calls, call.status = .sent → call.body.mutates mutating = true →
    call ∈ s.calls

theorem UnderWay.mono (h : UnderWay mutating s base c) (hs : Calmer mutating s s') :
    UnderWay mutating s' base c := by
  obtain ⟨hhistory, hlive, hloops, hcalls⟩ := hs
  refine ⟨fun j hj => ?_, fun call hc hsent hm => ?_, fun call hc call' hc' hsent hsent' hm hm' =>
    h.once call (hcalls call hc hsent hm) call' (hcalls call' hc' hsent' hm') hsent hsent' hm hm',
    fun r l' hl' hm => ?_, fun r r' l l' hl hl' hm hm' => ?_⟩
  · rw [hhistory]
    exact h.histories j (hlive j hj)
  · rw [hhistory]
    exact h.sent call (hcalls call hc hsent hm) hsent hm
  · obtain ⟨l, hl, hbody, hunvisited⟩ := hloops r l' hl' hm
    obtain ⟨hc, hself, hto, hsent⟩ := h.loops r l hl (hbody ▸ hm)
    rw [hhistory]
    refine ⟨hbody ▸ hc, hself, fun j hj hu => hto j (hlive j hj) (hunvisited j hu),
      fun call hcall hs hm => ?_⟩
    obtain ⟨hne, hvisited⟩ := hsent call (hcalls call hcall hs hm) hs hm
    exact ⟨hne, fun hu => hvisited (hunvisited _ hu)⟩
  · obtain ⟨l₁, hl₁, hbody₁, _⟩ := hloops r l hl hm
    obtain ⟨l₂, hl₂, hbody₂, _⟩ := hloops r' l' hl' hm'
    exact h.one r r' l₁ l₂ hl₁ hl₂ (hbody₁ ▸ hm) (hbody₂ ▸ hm')

theorem Calmer.busy (hs : Calmer mutating s s') (h : Busy cfg mutating s') :
    Busy cfg mutating s := by
  rcases h with ⟨r, hr, l', hl', hm⟩ | ⟨call, hc, hsent, hm⟩
  · obtain ⟨l, hl, hbody, _⟩ := hs.loops r l' hl' hm
    exact Or.inl ⟨r, hr, l, hl, hbody ▸ hm⟩
  · exact Or.inr ⟨call, hs.calls call hc hsent hm, hsent, hm⟩

theorem AgreeOk.calmer (h : AgreeOk cfg mutating s) (hw : Wired cfg s')
    (hs : Calmer mutating s s') : AgreeOk cfg mutating s' where
  wired := hw
  chain i j hi hj := by
    rw [hs.history]
    exact h.chain i j (hs.live i hi) (hs.live j hj)
  underWay hbusy := by
    obtain ⟨base, c, hunder⟩ := h.underWay (hs.busy hbusy)
    exact ⟨base, c, hunder.mono hs⟩

theorem AgreeOk.of_underWay (hw : Wired cfg s) (h : UnderWay mutating s base c) :
    AgreeOk cfg mutating s :=
  ⟨hw, h.chain, fun _ => ⟨base, c, h⟩⟩

/-! ## Steps that are calm -/

theorem Calmer.trans {s₁ : Cluster} (h : Calmer mutating s s₁) (h' : Calmer mutating s₁ s') :
    Calmer mutating s s' where
  history := h'.history.trans h.history
  live j hj := h.live j (h'.live j hj)
  loops r l' hl' hm := by
    obtain ⟨l₁, hl₁, hbody₁, hu₁⟩ := h'.loops r l' hl' hm
    obtain ⟨l, hl, hbody, hu⟩ := h.loops r l₁ hl₁ (hbody₁ ▸ hm)
    exact ⟨l, hl, hbody.trans hbody₁, fun j hj => hu j (hu₁ j hj)⟩
  calls call hc hs hm := h.calls call (h'.calls call hc hs hm) hs hm

theorem Calmer.ofCalls (hprocess : s'.process = s.process) (hhistory : s'.history = s.history)
    (hcalls : ∀ call ∈ s'.calls, call.status = .sent → call.body.mutates mutating = true →
      call ∈ s.calls) : Calmer mutating s s' where
  history := hhistory
  live j hj := hprocess ▸ hj
  loops r l' hl' _ := by
    unfold Cluster.loop at hl' ⊢
    rw [hprocess] at hl'
    exact ⟨l', hl', rfl, fun j hj => hj⟩
  calls := hcalls

/-- A process whose client thread goes on or stops. -/
theorem Calmer.own {rank : Nat} {p p' : Process} (hp : s.process rank = some p)
    (hloop : ∀ l', p'.loops .client = some l' → l'.body.mutates mutating = true →
      ∃ l, p.loops .client = some l ∧ l.body = l'.body ∧ ∀ j, l'.Unvisited j → l.Unvisited j) :
    Calmer mutating s (s.setProcess rank p') where
  history := rfl
  live j hj := by
    rw [Cluster.process_setProcess] at hj
    split_ifs at hj with hr
    · rw [hr, hp]
      exact Option.some_ne_none p
    · exact hj
  loops r l' hl' hm := by
    rw [Cluster.loop_setProcess] at hl'
    split_ifs at hl' with hr
    · rw [hr, s.loop_eq rank .client hp]
      exact hloop l' hl' hm
    · exact ⟨l', hl', rfl, fun j hj => hj⟩
  calls _ hc _ _ := hc

/-- A process whose client thread stays where it is. -/
theorem Calmer.idle {rank : Nat} {p p' : Process} (hp : s.process rank = some p)
    (hloop : p'.loops .client = p.loops .client) :
    Calmer mutating s (s.setProcess rank p') :=
  .own hp fun l' hl' _ => ⟨l', hloop ▸ hl', rfl, fun _ hj => hj⟩

/-- A process whose client thread ends its loop. -/
theorem Calmer.ends {rank : Nat} {p p' : Process} (hp : s.process rank = some p)
    (hloop : p'.loops .client = none) : Calmer mutating s (s.setProcess rank p') :=
  .own hp fun l' hl' _ => by
    rw [hloop] at hl'
    cases hl'

theorem Calmer.crash (rank : Nat) : Calmer mutating s (s.crash rank) where
  history := rfl
  live j hj := by
    rw [Cluster.process_crash] at hj
    split_ifs at hj
    · exact absurd rfl hj
    · exact hj
  loops r l' hl' _ := by
    rw [Cluster.loop_crash] at hl'
    split_ifs at hl'
    exact ⟨l', hl', rfl, fun j hj => hj⟩
  calls _ hc _ _ := (Cluster.mem_crash.mp hc).1

theorem Calmer.lose (xid : Nat) : Calmer mutating s (s.lose xid) :=
  .ofCalls rfl rfl fun _ hc _ _ => (Cluster.mem_lose.mp hc).1

theorem Cluster.mem_of_setStatus {xid : Nat} {status : Status} (hstatus : status ≠ .sent)
    {call : Call} (hc : call ∈ (s.setStatus xid status).calls) (hs : call.status = .sent) :
    call ∈ s.calls ∧ call.xid ≠ xid := by
  obtain ⟨c₀, hc₀, rfl⟩ := Cluster.mem_setStatus.mp hc
  split_ifs at hs with hxid
  · exact absurd hs hstatus
  · rw [if_neg hxid]
    exact ⟨hc₀, hxid⟩

theorem Calmer.setStatus {xid : Nat} {status : Status} (hstatus : status ≠ .sent) :
    Calmer mutating s (s.setStatus xid status) :=
  .ofCalls rfl rfl fun _ hc hs _ => (Cluster.mem_of_setStatus hstatus hc hs).1

/-- A call is sent that makes nobody run a command that counts. -/
theorem Calmer.send {dst : Nat} {body : Body} (hbody : body.mutates mutating = false) :
    Calmer mutating s (s.send dst body) := by
  refine .ofCalls rfl rfl fun call hc _ hm => ?_
  rcases Cluster.mem_send hc with hc | ⟨_, rfl⟩
  · exact hc
  · rw [hbody] at hm
    cases hm

theorem OwnBody.mutates {t : Thread} {body : Body} (h : OwnBody t body) (ht : t ≠ .client) :
    body.mutates mutating = false := by
  cases t with
  | client => exact absurd rfl ht
  | manager =>
    cases body with
    | newView view => rfl
    | _ => exact h.elim
  | listener =>
    cases body with
    | newView view => rfl
    | _ => exact h.elim

/-- The loop of a thread has moved on by one replica. -/
theorem Calmer.advance {rank i : Nat} {t : Thread} {body : Body} {call : Option Nat}
    {p p' : Process} (hp : s.process rank = some p)
    (hloop : p.loops t = some ⟨body, i, call⟩)
    (hloops : p'.loops = (p.setLoop t (some ⟨body, i + 1, none⟩)).loops) :
    Calmer mutating s (s.setProcess rank p') := by
  refine .own hp fun l' hl' _ => ?_
  rw [hloops] at hl'
  rcases Process.loops_of_setLoop hl' with hl' | ⟨rfl, hnew⟩
  · exact ⟨l', hl', rfl, fun _ hj => hj⟩
  · cases hnew
    refine ⟨_, hloop, rfl, fun j hj => ?_⟩
    have hj' : i + 1 ≤ j := hj
    unfold Loop.Unvisited
    dsimp only
    split_ifs <;> omega

/-! ## Steps that matter -/

/-- The client thread sends its command to the next replica. -/
theorem UnderWay.sends {rank i : Nat} {body : Body} {p p' : Process}
    (h : UnderWay mutating s base c) (hp : s.process rank = some p)
    (hloop : p.loops .client = some ⟨body, i, none⟩) (hbody : body.mutates mutating = true)
    (hi : i ≠ rank)
    (hloops : p'.loops = (p.setLoop .client (some ⟨body, i, some s.nextXid⟩)).loops) :
    UnderWay mutating ((s.send i body).setProcess rank p') base c := by
  have hold := (s.loop_eq rank .client hp).trans hloop
  obtain ⟨hcommand, hself, hto, hsent⟩ := h.loops rank _ hold hbody
  have hunvisited : Loop.Unvisited ⟨body, i, none⟩ i := Nat.le_refl i
  have hlive : ∀ j, ((s.send i body).setProcess rank p').process j ≠ none →
      s.process j ≠ none := by
    intro j hj
    rw [Cluster.process_setProcess] at hj
    split_ifs at hj with hr
    · rw [hr, hp]
      exact Option.some_ne_none p
    · exact hj
  -- the loop of this replica is the only one with a command under way
  have honly : ∀ r l, ((s.send i body).setProcess rank p').loop r .client = some l →
      l.body.mutates mutating = true → r = rank ∧ l = ⟨body, i, some s.nextXid⟩ := by
    intro r l hl hm
    rw [(s.send i body).loop_setLoop rank r .client hp hloops] at hl
    split_ifs at hl with hr
    · exact ⟨hr.1, (Option.some.inj hl).symm⟩
    · have hr' : r = rank := h.one r rank l _ hl hold hm hbody
      exact absurd ⟨hr', rfl⟩ hr
  refine ⟨fun j hj => h.histories j (hlive j hj), fun call hc hs hm => ?_,
    fun call hc call' hc' hs hs' hm hm' hdst => ?_, fun r l hl hm => ?_,
    fun r r' l l' hl hl' hm hm' => (honly r l hl hm).1.trans (honly r' l' hl' hm').1.symm⟩
  · rcases Cluster.mem_send hc with hc | ⟨hup, rfl⟩
    · exact h.sent call hc hs hm
    · exact ⟨hcommand, hto i hup hunvisited⟩
  · rcases Cluster.mem_send hc with hc | ⟨_, rfl⟩
    · rcases Cluster.mem_send hc' with hc' | ⟨_, rfl⟩
      · exact h.once call hc call' hc' hs hs' hm hm' hdst
      · exact absurd (hdst ▸ hunvisited) (hsent call hc hs hm).2
    · rcases Cluster.mem_send hc' with hc' | ⟨_, rfl⟩
      · exact absurd (hdst ▸ hunvisited) (hsent call' hc' hs' hm').2
      · rfl
  · obtain ⟨rfl, rfl⟩ := honly r l hl hm
    refine ⟨hcommand, hself, fun j hj hu => hto j (hlive j hj) (Nat.le_of_lt hu),
      fun call hc hs hm => ?_⟩
    rcases Cluster.mem_send hc with hc | ⟨_, rfl⟩
    · obtain ⟨hne, hvisited⟩ := hsent call hc hs hm
      exact ⟨hne, fun hu => hvisited (Nat.le_of_lt hu)⟩
    · exact ⟨hi, Nat.lt_irrefl i⟩

/-- A backup runs the command it was sent. -/
theorem UnderWay.backsUp {call : Call} {command : Command} (h : UnderWay mutating s base c)
    (hcall : call ∈ s.calls) (hstatus : call.status = .sent)
    (hbody : call.body = .command command) (hm : mutating command.request = true) :
    UnderWay mutating ((s.setStatus call.xid (.answered .replicated)).backUp call.dst mutating
      command) base c := by
  have hmutates : call.body.mutates mutating = true := by
    rw [hbody]
    exact hm
  obtain ⟨hcommand, hhistory⟩ := h.sent call hcall hstatus hmutates
  obtain rfl : command = c := by
    rw [hbody] at hcommand
    cases hcommand
    rfl
  have hnew : ∀ j, ((s.setStatus call.xid (.answered .replicated)).backUp call.dst mutating
      command).history j = if j = call.dst then base ++ [command] else s.history j := by
    intro j
    rw [Cluster.history_backUp _ _ _ hm]
    split_ifs
    · rw [show (s.setStatus call.xid (.answered .replicated)).history call.dst = base from hhistory]
    · rfl
  have hcalls : ∀ c' ∈ ((s.setStatus call.xid (.answered .replicated)).backUp call.dst mutating
      command).calls, c'.status = .sent → c' ∈ s.calls ∧ c'.xid ≠ call.xid := by
    intro c' hc' hs
    rw [Cluster.calls_backUp] at hc'
    exact Cluster.mem_of_setStatus (by simp) hc' hs
  -- the other commands in the network go to other replicas
  have hother : ∀ c' ∈ s.calls, c'.status = .sent → c'.body.mutates mutating = true →
      c'.xid ≠ call.xid → c'.dst ≠ call.dst := fun c' hc' hs hm' hne hdst =>
    hne (h.once c' hc' call hcall hs hstatus hm' hmutates hdst)
  have hloop : ∀ r, ((s.setStatus call.xid (.answered .replicated)).backUp call.dst mutating
      command).loop r .client = s.loop r .client := by
    intro r
    unfold Cluster.loop
    rw [Cluster.process_backUp]
    rfl
  have hprocess : ∀ j, ((s.setStatus call.xid (.answered .replicated)).backUp call.dst mutating
      command).process j = s.process j := by
    intro j
    rw [Cluster.process_backUp]
    rfl
  refine ⟨fun j hj => ?_, fun c' hc' hs hm' => ?_, fun c' hc' c'' hc'' hs hs' hm' hm'' =>
    h.once c' (hcalls c' hc' hs).1 c'' (hcalls c'' hc'' hs').1 hs hs' hm' hm'',
    fun r l hl hm' => ?_, fun r r' l l' hl hl' => ?_⟩
  · rw [hnew]
    split_ifs
    · exact Or.inr rfl
    · exact h.histories j (hprocess j ▸ hj)
  · obtain ⟨hc', hne⟩ := hcalls c' hc' hs
    obtain ⟨hcommand', hbase⟩ := h.sent c' hc' hs hm'
    rw [hnew, if_neg (hother c' hc' hs hm' hne)]
    exact ⟨hcommand', hbase⟩
  · rw [hloop] at hl
    obtain ⟨hcommand', hself, hto, hsent⟩ := h.loops r l hl hm'
    obtain ⟨hne, hvisited⟩ := hsent call hcall hstatus hmutates
    refine ⟨hcommand', ?_, fun j hj hu => ?_, fun c' hc' hs hm'' => ?_⟩
    · rw [hnew, if_neg (Ne.symm hne)]
      exact hself
    · have hj' : j ≠ call.dst := by
        rintro rfl
        exact hvisited hu
      rw [hnew, if_neg hj']
      exact hto j (hprocess j ▸ hj) hu
    · exact hsent c' (hcalls c' hc' hs).1 hs hm''
  · rw [hloop] at hl hl'
    exact h.one r r' l l' hl hl'

/-- The leader runs its command, and its loop is over. -/
theorem UnderWay.commits {rank i : Nat} {command : Command} {p p' : Process}
    (h : UnderWay mutating s base c) (hp : s.process rank = some p)
    (hloop : p.loops .client = some ⟨.command command, i, none⟩)
    (hm : mutating command.request = true) (hprocess : s'.process = (s.setProcess rank p').process)
    (hhistory : s'.history = (s.backUp rank mutating command).history)
    (hcalls : s'.calls = s.calls) (hloops : p'.loops = (p.setLoop .client none).loops) :
    UnderWay mutating s' base c := by
  have hold := (s.loop_eq rank .client hp).trans hloop
  obtain ⟨hcommand, hself, _, hsent⟩ := h.loops rank _ hold hm
  obtain rfl : command = c := by
    cases hcommand
    rfl
  have hnew : ∀ j, s'.history j = if j = rank then base ++ [command] else s.history j := by
    intro j
    rw [hhistory, Cluster.history_backUp _ _ _ hm, hself]
  have hlive : ∀ j, s'.process j ≠ none → s.process j ≠ none := by
    intro j hj
    rw [hprocess, Cluster.process_setProcess] at hj
    split_ifs at hj with hr
    · rw [hr, hp]
      exact Option.some_ne_none p
    · exact hj
  -- no client thread is left with a command under way
  have hnone : ∀ r l, s'.loop r .client = some l → l.body.mutates mutating = true → False := by
    intro r l hl hm'
    have hl' : (s.setProcess rank p').loop r .client = some l := by
      unfold Cluster.loop at hl ⊢
      rwa [hprocess] at hl
    rw [s.loop_setLoop rank r .client hp hloops] at hl'
    split_ifs at hl' with hr
    have hr' : r = rank := h.one r rank l _ hl' hold hm' hm
    exact hr ⟨hr', rfl⟩
  refine ⟨fun j hj => ?_, fun call hc hs hm' => ?_, fun call hc call' hc' =>
    h.once call (hcalls ▸ hc) call' (hcalls ▸ hc'),
    fun r l hl hm' => (hnone r l hl hm').elim, fun r r' l l' hl _ hm' => (hnone r l hl hm').elim⟩
  · rw [hnew]
    split_ifs
    · exact Or.inr rfl
    · exact h.histories j (hlive j hj)
  · rw [hcalls] at hc
    rw [hnew, if_neg (hsent call hc hs hm').1]
    exact h.sent call hc hs hm'

/-- A leader takes a command up while the live replicas agree. -/
theorem UnderWay.executes {rank : Nat} {p : Process} {command : Command} (hw : Wired cfg s)
    (hp : s.process rank = some p) (hidle : ¬ Busy cfg mutating s)
    (hequal : ∀ j < cfg.getMaxNumClient, s.process j ≠ none → s.history j = s.history rank)
    (hprocess : s'.process = (s.setProcess rank
      (p.setLoop .client (some ⟨.command command, 0, none⟩))).process)
    (hhistory : s'.history = s.history) (hcalls : s'.calls = s.calls) :
    UnderWay mutating s' (s.history rank) command := by
  have hlive : ∀ j, s'.process j ≠ none → s.process j ≠ none := by
    intro j hj
    rw [hprocess, Cluster.process_setProcess] at hj
    split_ifs at hj with hr
    · rw [hr, hp]
      exact Option.some_ne_none p
    · exact hj
  have hsame : ∀ j, s'.process j ≠ none → s'.history j = s.history rank := by
    intro j hj
    rw [hhistory]
    exact hequal j (hw.ranks j (hlive j hj)) (hlive j hj)
  have hnocall : ∀ call ∈ s'.calls, call.status = .sent → call.body.mutates mutating = true →
      False := by
    intro call hc hs hm
    rw [hcalls] at hc
    exact hidle (Or.inr ⟨call, hc, hs, hm⟩)
  have honly : ∀ r l, s'.loop r .client = some l → l.body.mutates mutating = true →
      r = rank ∧ l = ⟨.command command, 0, none⟩ := by
    intro r l hl hm
    have hl' : (s.setProcess rank
        (p.setLoop .client (some ⟨.command command, 0, none⟩))).loop r .client = some l := by
      unfold Cluster.loop at hl ⊢
      rwa [hprocess] at hl
    rw [s.loop_setLoop rank r .client hp rfl] at hl'
    split_ifs at hl' with hr
    · exact ⟨hr.1, (Option.some.inj hl').symm⟩
    · have hup : s.process r ≠ none := by
        intro hnone
        rw [Cluster.loop, hnone] at hl'
        cases hl'
      exact absurd (Or.inl ⟨r, hw.ranks r hup, l, hl', hm⟩) hidle
  refine ⟨fun j hj => Or.inl (hsame j hj), fun call hc hs hm => (hnocall call hc hs hm).elim,
    fun call hc call' _ hs _ hm => (hnocall call hc hs hm).elim, fun r l hl hm => ?_,
    fun r r' l l' hl hl' hm hm' => (honly r l hl hm).1.trans (honly r' l' hl' hm').1.symm⟩
  obtain ⟨rfl, rfl⟩ := honly r l hl hm
  exact ⟨rfl, congrFun hhistory r, fun j hj _ => hsame j hj,
    fun call hc hs hm => (hnocall call hc hs hm).elim⟩

/-- A replica starts while no command is under way. -/
theorem AgreeOk.start {rank : Nat} (h : AgreeOk cfg mutating s)
    (hw : Wired cfg (s.setProcess rank .fresh)) (hidle : ¬ Busy cfg mutating s)
    (hbelow : ∀ j < cfg.getMaxNumClient, s.process j ≠ none → s.history rank <+: s.history j) :
    AgreeOk cfg mutating (s.setProcess rank .fresh) where
  wired := hw
  chain i j hi hj := by
    rw [Cluster.process_setProcess] at hi hj
    show s.history i <+: s.history j ∨ s.history j <+: s.history i
    by_cases hir : i = rank
    · by_cases hjr : j = rank
      · rw [hir, hjr]
        exact Or.inl (List.prefix_refl _)
      · rw [if_neg hjr] at hj
        rw [hir]
        exact Or.inl (hbelow j (h.wired.ranks j hj) hj)
    · rw [if_neg hir] at hi
      by_cases hjr : j = rank
      · rw [hjr]
        exact Or.inr (hbelow i (h.wired.ranks i hi) hi)
      · rw [if_neg hjr] at hj
        exact h.chain i j hi hj
  underWay hbusy := by
    refine absurd ?_ hidle
    rcases hbusy with ⟨r, hr, l, hl, hm⟩ | hcall
    · have hl' : (s.setProcess rank .fresh).loop r .client = some l := hl
      rw [Cluster.loop_setProcess] at hl'
      split_ifs at hl'
      · cases hl'
      · exact Or.inl ⟨r, hr, l, hl', hm⟩
    · exact Or.inr hcall

/-- A step of a steady run keeps the invariant. -/
theorem Moves.agreeOk {l : Label} (h : Moves cfg mutating s l s') (hok : AgreeOk cfg mutating s)
    (hsteady : Steady cfg mutating s l) : AgreeOk cfg mutating s' := by
  have hw := h.wired hok.wired
  cases h with
  | start _ _ => exact hok.start hw hsteady.1 hsteady.2
  | crash _ => exact hok.calmer hw (.crash _)
  | waits hp _ => exact hok.calmer hw (.idle hp rfl)
  | leads hp _ _ _ => exact hok.calmer hw (.idle hp rfl)
  | chooses hp => exact hok.calmer hw (.idle hp rfl)
  | notifies hp _ => exact hok.calmer hw (Calmer.trans (.send rfl) (.idle hp rfl))
  | notified hp _ _ => exact hok.calmer hw (Calmer.trans (.lose _) (.idle hp rfl))
  | passes hp hloop _ _ => exact hok.calmer hw (.advance hp hloop rfl)
  | @sends rank i t body p hp hloop _ hne =>
    have hold := (s.loop_eq rank t hp).trans hloop
    cases hm : body.mutates mutating with
    | false =>
      refine hok.calmer hw (Calmer.trans (.send hm) (.own hp fun l' hl' hm' => ?_))
      rcases Process.loops_of_setLoop hl' with hl' | ⟨_, hnew⟩
      · exact ⟨l', hl', rfl, fun _ hj => hj⟩
      · cases hnew
        rw [hm] at hm'
        cases hm'
    | true =>
      have ht : t = .client := by
        by_contra hcon
        have hnot : body.mutates mutating = false := (hok.wired.bodies rank t _ hold).mutates hcon
        rw [hm] at hnot
        cases hnot
      subst ht
      have hbusy : Busy cfg mutating s := by
        refine Or.inl ⟨rank, hok.wired.ranks rank ?_, _, hold, hm⟩
        rw [hp]
        exact Option.some_ne_none p
      obtain ⟨base, c, hunder⟩ := hok.underWay hbusy
      exact .of_underWay hw (hunder.sends hp hloop hm hne rfl)
  | resumes hp hloop _ => exact hok.calmer hw (Calmer.trans (.lose _) (.advance hp hloop rfl))
  | abandons hp _ => exact hok.calmer hw (Calmer.trans (.setStatus (by simp)) (.idle hp rfl))
  | throws hp => exact hok.calmer hw (.ends hp rfl)
  | initializes hp _ _ => exact hok.calmer hw (.idle hp rfl)
  | promoted hp _ _ _ => exact hok.calmer hw (Calmer.trans (.setStatus (by simp)) (.idle hp rfl))
  | @commits rank i c p hp hloop _ =>
    cases hm : mutating c.request with
    | false =>
      have hback : s.backUp rank mutating c = s := if_neg (by simp [hm])
      have hends : Calmer mutating s (s.setProcess rank (p.setLoop .client none)) := .ends hp rfl
      refine hok.calmer hw (hends.trans (.ofCalls ?_ ?_ fun call hc _ _ => ?_))
      · rw [hback]
      · rw [hback]
      · rw [hback] at hc
        exact hc
    | true =>
      have hold := (s.loop_eq rank .client hp).trans hloop
      have hbusy : Busy cfg mutating s := by
        refine Or.inl ⟨rank, hok.wired.ranks rank ?_, _, hold, hm⟩
        rw [hp]
        exact Option.some_ne_none p
      obtain ⟨base, c', hunder⟩ := hok.underWay hbusy
      refine .of_underWay hw (hunder.commits hp hloop hm ?_ rfl ?_ rfl)
      · show Function.update (s.backUp rank mutating c).process rank _ = _
        rw [Cluster.process_backUp]
        rfl
      · show (s.backUp rank mutating c).calls = _
        rw [Cluster.calls_backUp]
  | follows _ _ hp _ => exact hok.calmer hw (Calmer.trans (.setStatus (by simp)) (.idle hp rfl))
  | @backsUp call command p hc hsent hp hbody =>
    cases hm : mutating command.request with
    | false =>
      have hback : (s.setStatus call.xid (.answered .replicated)).backUp call.dst mutating
          command = s.setStatus call.xid (.answered .replicated) := if_neg (by simp [hm])
      rw [hback] at hw ⊢
      exact hok.calmer hw (.setStatus (by simp))
    | true =>
      have hbusy : Busy cfg mutating s := by
        refine Or.inr ⟨call, hc, hsent, ?_⟩
        rw [hbody]
        exact hm
      obtain ⟨base, c, hunder⟩ := hok.underWay hbusy
      exact .of_underWay hw (hunder.backsUp hc hsent hbody hm)
  | refuses _ _ _ _ _ _ => exact hok.calmer hw (.setStatus (by simp))
  | accepts _ _ hp _ _ _ => exact hok.calmer hw (Calmer.trans (.setStatus (by simp)) (.idle hp rfl))
  | loses => exact hok.calmer hw (.lose _)
  | declines _ _ => exact hok
  | @executes rank request p hp hidle hleader =>
    cases hm : mutating request with
    | false =>
      refine hok.calmer hw (Calmer.trans (.own hp fun l' hl' hm' => ?_) (.ofCalls rfl rfl
        fun call hc _ _ => hc))
      rcases Process.loops_of_setLoop hl' with hl' | ⟨_, hnew⟩
      · exact ⟨l', hl', rfl, fun _ hj => hj⟩
      · cases hnew
        have hm'' : mutating request = true := hm'
        rw [hm] at hm''
        cases hm''
    | true =>
      have hlead : s.isLeader rank = true := (s.isLeader_eq rank hp).trans hleader
      obtain ⟨hquiet, hequal⟩ := hsteady hm hlead
      exact .of_underWay hw (.executes hok.wired hp hquiet hequal rfl rfl rfl)

end Invariant

/-! ## Steady runs -/

theorem Comparable.of_chain {l l' : List Command} (h : l <+: l' ∨ l' <+: l) : Comparable l l' := by
  rcases h with h | h
  · exact Or.inl (h.map _)
  · exact Or.inr (h.map _)

theorem agreeOk_initial (cfg : Config) (mutating : Str → Bool) :
    AgreeOk cfg mutating .initial where
  wired := wired_initial
  chain i j hi := absurd rfl hi
  underWay hbusy := by
    rcases hbusy with ⟨r, _, l, hl, _⟩ | ⟨c, hc, _⟩
    · cases hl
    · cases hc

/-- In every state of a steady run what two live replicas have run is comparable. -/
theorem replicaAgreement_reachable (cfg : Config) (mutating : Str → Bool) (s : Cluster)
    (h : (cluster cfg mutating).Reach (Steady cfg mutating) s) : ReplicaAgreement cfg s := by
  have hok : AgreeOk cfg mutating s := by
    refine h.invariant ?_ ?_
    · rintro s rfl
      exact agreeOk_initial cfg mutating
    · intro s s' l _ hok hsteady hstep
      exact (step_moves hstep).agreeOk hok hsteady
  intro _ i _ j _ hi hj
  exact .of_chain (hok.chain i j hi hj)

/-- Two replicas; one of them is enough for a quorum, as in the file that comes
    with the program. -/
def twoReplicas : Config := ⟨1, [(['a'], ['x']), (['b'], ['y'])]⟩

/-- The first replica becomes the leader and tells the second one. -/
def firstLeads : List Label :=
  [.start 0, .start 1, .manage 0 false [1], .replicateCommand 0 .manager true,
    .replicateCommand 0 .manager true, .serve 0, .resume 0 .manager, .finish 0 .manager]

theorem replicaAgreement_replicated :
    ∃ s, (cluster twoReplicas fun _ => true).exec (Steady twoReplicas fun _ => true)
      (firstLeads ++ [.execute 0 ['p'], .replicateCommand 0 .client true,
        .replicateCommand 0 .client true, .serve 1, .resume 0 .client, .finish 0 .client])
      .initial = some s ∧ s.history 1 = [⟨0, ['p']⟩] ∧ ReplicaAgreement twoReplicas s := by
  have hrun : ∃ s, (cluster twoReplicas fun _ => true).exec (Steady twoReplicas fun _ => true)
      (firstLeads ++ [.execute 0 ['p'], .replicateCommand 0 .client true,
        .replicateCommand 0 .client true, .serve 1, .resume 0 .client, .finish 0 .client])
      .initial = some s ∧ s.history 1 = [⟨0, ['p']⟩] := ⟨_, rfl, rfl⟩
  obtain ⟨s, hs, hone⟩ := hrun
  exact ⟨s, hs, hone, replicaAgreement_reachable _ _ s (Lts.Reach.exec (.init rfl) hs)⟩

/-- The leader passes over a replica that is not there yet, and replicates the
    next command to it. -/
def passOver : List Label :=
  [.start 0, .manage 0 false [], .replicateCommand 0 .manager false,
    .replicateCommand 0 .manager false, .finish 0 .manager, .execute 0 ['p'],
    .replicateCommand 0 .client false, .replicateCommand 0 .client false, .finish 0 .client,
    .start 1, .execute 0 ['q'], .replicateCommand 0 .client true,
    .replicateCommand 0 .client true, .serve 0, .resume 0 .client, .finish 0 .client]

/-- Not every run keeps the replicas in agreement. -/
theorem not_replicaAgreement :
    ¬ ∀ s, (cluster twoReplicas fun _ => true).Reach (fun _ _ => True) s →
      ReplicaAgreement twoReplicas s := by
  intro hall
  have hrun : ∃ s, (cluster twoReplicas fun _ => true).exec (fun _ _ => True) passOver
      .initial = some s ∧ ¬ ReplicateInFlight twoReplicas s ∧ s.process 0 ≠ none ∧
        s.process 1 ≠ none ∧ ¬ Comparable (s.history 0) (s.history 1) := by
    refine ⟨_, rfl, ?_⟩
    decide
  obtain ⟨s, hs, hquiet, hzero, hone, hnot⟩ := hrun
  have hagree := hall s (Lts.Reach.exec (.init rfl) hs)
  exact hnot (hagree hquiet 0 (by decide) 1 (by decide) hzero hone)

end Paxos

end SimpleChubby
