import SimpleChubby.Paxos.Agreement

/-!
# One leader

A replica takes the leadership on its own word or on that of another replica,
and its broadcast of the new view is what ends the leadership of the others. A
leader the broadcast does not reach stays one. A replica that takes it on its own
word has called nobody yet, so there must be no other leader then; one that is
promoted tells the others while the `init_view` that promotes it is in the
network, and if every live leader is told, any two leaders are such that one of
them still has to hear from the other.
-/

namespace SimpleChubby

namespace Paxos

/-- The calls that are about the leadership: `init_view`, and `replicate` with ts = 0. -/
def Body.changesView : Body → Bool
  | .command _ => false
  | _ => true

section Statement

variable (cfg : Config) (s : Cluster)

/-- A call about the leadership is in the network, and has not been answered. -/
def ViewInFlight : Prop := ∃ c ∈ s.calls, c.status.open = true ∧ c.body.changesView = true

instance : Decidable (ViewInFlight s) := inferInstanceAs (Decidable (∃ c ∈ s.calls, _))

/-- While no call about the leadership is in flight, at most one live replica is a leader. -/
def SingleLeader : Prop :=
  ¬ ViewInFlight s → ∀ i < cfg.getMaxNumClient, ∀ j < cfg.getMaxNumClient,
    s.isLeader i = true → s.isLeader j = true → i = j

/-- `NotifyNewLeader` makes the replica itself the leader in this turn of `run`. -/
def takesLeadership (rank : Nat) (reachable : Bool) (up : List Nat) : Bool :=
  (s.process rank).any fun p =>
    match run cfg rank reachable up p.state with
    | .leads _ => true
    | _ => false

/-- The replica is no leader any more, or its handler of `init_view` has no live
    leader left that it would still call, or is calling. -/
def ToldAll (rank : Nat) : Prop :=
  s.isLeader rank = true → ∀ l ∈ s.loop rank .listener, ∀ j < cfg.getMaxNumClient,
    l.rank ≤ j → j ≠ rank → s.isLeader j = false

instance (rank : Nat) : Decidable (ToldAll cfg s rank) := inferInstanceAs (Decidable (_ → _))

/-- A replica takes the leadership on its own word while there is no other live
    leader; the broadcast of a promoted leader passes over no live leader, and
    neither an exception nor the loss of the `init_view` that it serves comes
    before every live leader has answered. -/
def Telling : Label → Prop
  | .manage rank reachable up =>
    takesLeadership cfg s rank reachable up = true →
      ∀ j < cfg.getMaxNumClient, j ≠ rank → s.isLeader j = false
  | .replicateCommand rank .listener false =>
    s.isLeader rank = true → ∀ l ∈ s.loop rank .listener, l.rank ≠ rank →
      s.isLeader l.rank = false
  | .fail rank .listener => ToldAll cfg s rank
  | .lose xid => ∀ rank < cfg.getMaxNumClient, (s.process rank).bind Process.serving = some xid →
    ToldAll cfg s rank
  | _ => True

instance (l : Label) : Decidable (Telling cfg s l) := by
  unfold Telling
  split <;> infer_instance

end Statement

/-! ## The invariant -/

/-- The loop has still to call the replica `j`, or waits for its answer. -/
def Loop.Owes (s : Cluster) (l : Loop) (j : Nat) : Prop :=
  l.Unvisited j ∨ l.rank = j ∧ ∃ xid, l.call = some xid ∧
    ∀ c ∈ s.calls, c.xid = xid → c.status.open = true

/-- The listener of the replica serves an `init_view` that is in the network. -/
def Cluster.Promoting (s : Cluster) (i : Nat) : Prop :=
  ∃ xid, s.serving i = some xid ∧ (∃ c ∈ s.calls, c.xid = xid) ∧
    ∀ c ∈ s.calls, c.xid = xid → c.status.open = true

/-- The replica `i` has been promoted and is broadcasting the new view, and `j` has
    not heard of it. -/
def Cluster.Owes (s : Cluster) (i j : Nat) : Prop :=
  s.Promoting i ∧ ∃ l, s.loop i .listener = some l ∧ l.Owes s j

/-- Of two leaders one still has to hear from the other. -/
def Cluster.Rivals (s : Cluster) : Prop :=
  ∀ i j, i ≠ j → s.isLeader i = true → s.isLeader j = true → s.Owes i j ∨ s.Owes j i

section Invariant

variable {cfg : Config} {mutating : Str → Bool} {s s' : Cluster} {rank : Nat}

theorem Cluster.ne_none_of_isLeader {r : Nat} (h : s.isLeader r = true) : s.process r ≠ none := by
  intro hnone
  unfold Cluster.isLeader at h
  rw [hnone] at h
  cases h

/-- What is owed in both directions carries over when nobody has become a leader. -/
theorem Cluster.Rivals.mono (h : s.Rivals)
    (hleader : ∀ r, s'.isLeader r = true → s.isLeader r = true)
    (howes : ∀ i j, i ≠ j → s'.isLeader i = true → s'.isLeader j = true → s.Owes i j →
      s'.Owes i j) : s'.Rivals := by
  intro i j hne hi hj
  rcases h i j hne (hleader i hi) (hleader j hj) with hij | hji
  · exact Or.inl (howes i j hne hi hj hij)
  · exact Or.inr (howes j i (Ne.symm hne) hj hi hji)

/-- A loop that has something to tell a replica has not passed it. -/
theorem Loop.Owes.rank_le {l : Loop} {j : Nat} (h : l.Owes s j) : l.rank ≤ j := by
  rcases h with hunvisited | ⟨hrank, _⟩
  · unfold Loop.Unvisited at hunvisited
    split_ifs at hunvisited <;> omega
  · omega

/-- What a step may change that makes no leader and moves no broadcast: calls are
    sent, and calls that are not about the leadership are answered. -/
structure Gentle (s s' : Cluster) : Prop where
  leaders : ∀ r, s'.isLeader r = true → s.isLeader r = true
  loops : ∀ r, s'.isLeader r = true → s'.loop r .listener = s.loop r .listener
  promoting : ∀ r, s'.isLeader r = true → s.Promoting r → s'.Promoting r
  calls : ∀ c' ∈ s'.calls, c'.status.open = false → ∀ view, c'.body = .newView view → c' ∈ s.calls

theorem OwnBody.newView {body : Body} (h : OwnBody .listener body) :
    ∃ view, body = .newView view := by
  cases body with
  | newView view => exact ⟨view, rfl⟩
  | _ => exact h.elim

/-- The loop of the state before still waits for what it waited for. -/
theorem Loop.Owes.keep {i j : Nat} {l : Loop} (h : l.Owes s j)
    (hw : Wired cfg s') (hl : s'.loop i .listener = some l)
    (hcalls : ∀ c' ∈ s'.calls, c'.status.open = false →
      ∀ view, c'.body = .newView view → c' ∈ s.calls) : l.Owes s' j := by
  rcases h with hunvisited | ⟨hrank, xid, hcall, hopen⟩
  · exact Or.inl hunvisited
  · refine Or.inr ⟨hrank, xid, hcall, fun c hc hxid => ?_⟩
    by_contra hclosed
    obtain ⟨view, hview⟩ := (hw.bodies i .listener l hl).newView
    have hbody : c.body = .newView view :=
      ((hw.waits i .listener l xid hl hcall).2 c hc hxid).2.trans hview
    exact hclosed (hopen c (hcalls c hc (Bool.not_eq_true _ ▸ hclosed) view hbody) hxid)

theorem Cluster.Rivals.gentle (h : s.Rivals) (hw : Wired cfg s') (hs : Gentle s s') :
    s'.Rivals := by
  refine h.mono hs.leaders fun i j _ hi _ howes => ?_
  obtain ⟨hpromoting, l, hl, hlj⟩ := howes
  have hl' : s'.loop i .listener = some l := (hs.loops i hi).trans hl
  exact ⟨hs.promoting i hi hpromoting, l, hl', hlj.keep hw hl' hs.calls⟩

theorem Gentle.trans {s₁ : Cluster} (h : Gentle s s₁) (h' : Gentle s₁ s') : Gentle s s' where
  leaders r hr := h.leaders r (h'.leaders r hr)
  loops r hr := (h'.loops r hr).trans (h.loops r (h'.leaders r hr))
  promoting r hr hp := h'.promoting r hr (h.promoting r (h'.leaders r hr) hp)
  calls c hc hs view hview := h.calls c (h'.calls c hc hs view hview) hs view hview

theorem Gentle.ofCalls (hprocess : s'.process = s.process)
    (hpromoting : ∀ r, s.Promoting r → s'.Promoting r)
    (hcalls : ∀ c' ∈ s'.calls, c'.status.open = false → ∀ view, c'.body = .newView view →
      c' ∈ s.calls) : Gentle s s' where
  leaders r hr := by
    unfold Cluster.isLeader at hr ⊢
    rwa [hprocess] at hr
  loops r _ := by
    unfold Cluster.loop
    rw [hprocess]
  promoting r _ hr := hpromoting r hr
  calls := hcalls

theorem Cluster.promoting_setProcess {rank i : Nat} {p : Process}
    (h : i = rank → p.serving = s.serving i) :
    (s.setProcess rank p).Promoting i ↔ s.Promoting i := by
  have hserving : (s.setProcess rank p).serving i = s.serving i := by
    rw [Cluster.serving_setProcess]
    split_ifs with hi
    · exact h hi
    · rfl
  unfold Cluster.Promoting
  rw [hserving]
  rfl

/-- A process that does not become a leader, and whose broadcast stays where it is. -/
theorem Gentle.own {rank : Nat} {p p' : Process} (hp : s.process rank = some p)
    (hleader : p'.state.isLeader = true → p.state.isLeader = true)
    (hserving : p'.serving = p.serving) (hloop : p'.loops .listener = p.loops .listener) :
    Gentle s (s.setProcess rank p') where
  leaders r hr := by
    rw [Cluster.isLeader_setProcess] at hr
    split_ifs at hr with hrank
    · rw [hrank, s.isLeader_eq rank hp]
      exact hleader hr
    · exact hr
  loops r _ := by
    rw [Cluster.loop_setProcess]
    split_ifs with hrank
    · rw [hrank, s.loop_eq rank .listener hp]
      exact hloop
    · rfl
  promoting r _ hr := by
    refine (Cluster.promoting_setProcess fun hrank => ?_).mpr hr
    rw [hrank, s.serving_eq rank hp]
    exact hserving
  calls _ hc _ _ _ := hc

/-- A replica that has just started is no leader. -/
theorem Gentle.start {rank : Nat} : Gentle s (s.setProcess rank .fresh) where
  leaders r hr := by
    rw [Cluster.isLeader_setProcess] at hr
    split_ifs at hr
    · cases hr
    · exact hr
  loops r hr := by
    rw [Cluster.isLeader_setProcess] at hr
    split_ifs at hr with hrank
    · cases hr
    · rw [Cluster.loop_setProcess, if_neg hrank]
  promoting r hr hpromoting := by
    rw [Cluster.isLeader_setProcess] at hr
    split_ifs at hr with hrank
    · cases hr
    · exact (Cluster.promoting_setProcess fun hcon => absurd hcon hrank).mpr hpromoting
  calls _ hc _ _ _ := hc

/-- A back store is nothing to the broadcasts. -/
theorem Gentle.backUp (rank : Nat) (c : Command) : Gentle s (s.backUp rank mutating c) := by
  refine .ofCalls (s.process_backUp rank) (fun r hpromoting => ?_) fun c' hc' _ _ _ => ?_
  · unfold Cluster.Promoting Cluster.serving at hpromoting ⊢
    rwa [Cluster.process_backUp, Cluster.calls_backUp]
  · rwa [Cluster.calls_backUp] at hc'

/-- The calls that a process served are lost with it. -/
theorem Gentle.crash (hw : Wired cfg s) (rank : Nat) : Gentle s (s.crash rank) where
  leaders r hr := by
    rw [Cluster.isLeader_crash] at hr
    split_ifs at hr
    exact hr
  loops r hr := by
    rw [Cluster.isLeader_crash] at hr
    split_ifs at hr with hrank
    rw [Cluster.loop_crash, if_neg hrank]
  promoting r hr hpromoting := by
    rw [Cluster.isLeader_crash] at hr
    split_ifs at hr with hrank
    obtain ⟨xid, hserving, ⟨c, hc, hxid⟩, hopen⟩ := hpromoting
    refine ⟨xid, ?_, ⟨c, Cluster.mem_crash.mpr ⟨hc, fun hdst => ?_⟩, hxid⟩, fun c' hc' hxid' => ?_⟩
    · rw [Cluster.serving_crash, if_neg hrank]
      exact hserving
    · exact absurd (((hw.serves r xid hserving).2 c hc hxid).1.symm.trans hdst) hrank
    · exact hopen c' (Cluster.mem_crash.mp hc').1 hxid'
  calls _ hc _ _ _ := (Cluster.mem_crash.mp hc).1

/-- A call leaves the network that no listener serves there. -/
theorem Gentle.lose {xid : Nat} (h : ∀ r, s.Promoting r → s.serving r ≠ some xid) :
    Gentle s (s.lose xid) := by
  refine .ofCalls rfl (fun r hr => ?_) fun _ hc _ _ _ => (Cluster.mem_lose.mp hc).1
  have hne := h r hr
  obtain ⟨xid', hserving, ⟨c, hc, hxid⟩, hopen⟩ := hr
  refine ⟨xid', hserving, ⟨c, Cluster.mem_lose.mpr ⟨hc, fun hcon => ?_⟩, hxid⟩,
    fun c' hc' hxid' => hopen c' (Cluster.mem_lose.mp hc').1 hxid'⟩
  rw [hxid] at hcon
  exact hne (hcon ▸ hserving)

/-- A call that has been answered is served by no listener. -/
theorem Gentle.lose_answered {xid : Nat} {a : Answer} (h : s.answer xid = some a) :
    Gentle s (s.lose xid) := by
  obtain ⟨c, hc, hxid, hstatus⟩ := Cluster.mem_of_answer h
  refine .lose fun r hr hserving => ?_
  obtain ⟨xid', hserving', _, hopen⟩ := hr
  obtain rfl := Option.some.inj (hserving.symm.trans hserving')
  have hclosed := hopen c hc hxid
  rw [hstatus] at hclosed
  cases hclosed

theorem Gentle.send {dst : Nat} {body : Body} : Gentle s (s.send dst body) := by
  refine .ofCalls rfl (fun r hr => ?_) fun c hc hs _ _ => ?_
  · obtain ⟨xid, hserving, ⟨c, hc, hxid⟩, hopen⟩ := hr
    refine ⟨xid, hserving, ⟨c, ?_, hxid⟩, fun c' hc' hxid' => ?_⟩
    · unfold Cluster.send
      dsimp only
      split_ifs
      · exact List.mem_append_left _ hc
      · exact hc
    · rcases Cluster.mem_send hc' with hc' | ⟨_, rfl⟩
      · exact hopen c' hc' hxid'
      · rfl
  · rcases Cluster.mem_send hc with hc | ⟨_, rfl⟩
    · exact hc
    · cases hs

/-- A call that is not about a new view is served, or it is answered and no listener
    serves it. -/
theorem Gentle.setStatus {xid dst : Nat} {body : Body} {status : Status} (hw : Wired cfg s)
    (h : s.Awaits xid dst body) (hbody : ∀ view, body ≠ .newView view)
    (hserving : status.open = true ∨ s.serving dst ≠ some xid) :
    Gentle s (s.setStatus xid status) := by
  refine .ofCalls rfl (fun r hr => ?_) fun c hc _ view hview => ?_
  · obtain ⟨xid', hserving', ⟨c, hc, hxid⟩, hopen⟩ := hr
    refine ⟨xid', hserving',
      ⟨_, Cluster.mem_setStatus.mpr ⟨c, hc, rfl⟩, by split_ifs <;> exact hxid⟩,
      fun c' hc' hxid' => ?_⟩
    obtain ⟨c₀, hc₀, rfl⟩ := Cluster.mem_setStatus.mp hc'
    split_ifs at hxid' ⊢ with hsame
    · rcases hserving with hstatus | hnot
      · exact hstatus
      · -- the call is one to the replica that serves it
        obtain rfl : xid = xid' := hsame.symm.trans hxid'
        have hdst : dst = r := (h.2 c₀ hc₀ hsame).1.symm.trans
          ((hw.serves r xid hserving').2 c₀ hc₀ hsame).1
        exact absurd (hdst ▸ hserving') hnot
    · exact hopen c₀ hc₀ hxid'
  · obtain ⟨c₀, hc₀, rfl⟩ := Cluster.mem_setStatus.mp hc
    split_ifs at hview ⊢ with hxid
    · exact absurd ((h.2 c₀ hc₀ hxid).2.symm.trans hview) (hbody view)
    · exact hc₀

/-! ## Steps of a broadcast -/

/-- A loop of one process is replaced, and that of the listener owes the live
    leaders what it did. -/
theorem Cluster.Rivals.setLoop {rank : Nat} {t : Thread} {l : Loop} {l' : Option Loop}
    {p p' : Process} (h : s.Rivals) (hp : s.process rank = some p) (hloop : p.loops t = some l)
    (hleader : p'.state.isLeader = p.state.isLeader) (hserving : p'.serving = p.serving)
    (hloops : p'.loops = (p.setLoop t l').loops)
    (howes : t = .listener → s.isLeader rank = true → ∀ j, j ≠ rank → s.isLeader j = true →
      l.Owes s j → ∃ m, l' = some m ∧ m.Owes s j) : (s.setProcess rank p').Rivals := by
  have hsame : ∀ r, (s.setProcess rank p').isLeader r = s.isLeader r := by
    intro r
    rw [Cluster.isLeader_setProcess]
    split_ifs with hr
    · rw [hleader, hr, s.isLeader_eq rank hp]
    · rfl
  refine h.mono (fun r hr => (hsame r).symm.trans hr) fun i j hne hi hj howed => ?_
  obtain ⟨hpromoting, m, hm, hmj⟩ := howed
  have hpromoting' : (s.setProcess rank p').Promoting i := by
    refine (Cluster.promoting_setProcess fun hrank => ?_).mpr hpromoting
    rw [hrank, s.serving_eq rank hp]
    exact hserving
  by_cases hit : i = rank ∧ Thread.listener = t
  · obtain ⟨rfl, rfl⟩ := hit
    obtain rfl : l = m :=
      Option.some.inj (hloop.symm.trans ((s.loop_eq i .listener hp).symm.trans hm))
    obtain ⟨m', rfl, hmj'⟩ :=
      howes rfl ((hsame i).symm.trans hi) j (Ne.symm hne) ((hsame j).symm.trans hj) hmj
    refine ⟨hpromoting', m', ?_, hmj'⟩
    rw [s.loop_setLoop i i .listener hp hloops, if_pos ⟨rfl, rfl⟩]
  · refine ⟨hpromoting', m, ?_, hmj⟩
    rw [s.loop_setLoop rank i .listener hp hloops, if_neg hit]
    exact hm

/-- A loop leaves a replica that is no leader, or that has answered. -/
theorem Cluster.Rivals.advance {rank i : Nat} {t : Thread} {body : Body} {call : Option Nat}
    {p p' : Process} (h : s.Rivals) (hp : s.process rank = some p)
    (hloop : p.loops t = some ⟨body, i, call⟩)
    (hleader : p'.state.isLeader = p.state.isLeader) (hserving : p'.serving = p.serving)
    (hloops : p'.loops = (p.setLoop t (some ⟨body, i + 1, none⟩)).loops)
    (hleft : t = .listener → s.isLeader rank = true → i ≠ rank → s.isLeader i = true →
      ¬ Loop.Owes s ⟨body, i, call⟩ i) : (s.setProcess rank p').Rivals := by
  refine h.setLoop hp hloop hleader hserving hloops fun ht hlead j hne hj hlj => ?_
  have hle : i ≤ j := hlj.rank_le
  have hij : i ≠ j := by
    rintro rfl
    exact hleft ht hlead hne hj hlj
  exact ⟨_, rfl, Or.inl (by show i + 1 ≤ j; omega)⟩

/-- A process that does not become a leader, and that owes the live leaders nothing
    if it is one, may change as it likes. -/
theorem Cluster.Rivals.settled {rank : Nat} {p p' : Process} (h : s.Rivals)
    (hp : s.process rank = some p) (hleader : p'.state.isLeader = p.state.isLeader)
    (hsettled : s.isLeader rank = true → ∀ j, j ≠ rank → s.isLeader j = true →
      ¬ s.Owes rank j) : (s.setProcess rank p').Rivals := by
  have hsame : ∀ r, (s.setProcess rank p').isLeader r = s.isLeader r := by
    intro r
    rw [Cluster.isLeader_setProcess]
    split_ifs with hr
    · rw [hleader, hr, s.isLeader_eq rank hp]
    · rfl
  refine h.mono (fun r hr => (hsame r).symm.trans hr) fun i j hne hi hj howed => ?_
  rw [hsame] at hi hj
  by_cases hrank : i = rank
  · subst hrank
    exact absurd howed (hsettled hi j (Ne.symm hne) hj)
  · obtain ⟨hpromoting, l, hl, hlj⟩ := howed
    refine ⟨(Cluster.promoting_setProcess fun hcon => absurd hcon hrank).mpr hpromoting, l, ?_, hlj⟩
    rw [Cluster.loop_setProcess, if_neg hrank]
    exact hl

/-- A broadcast that has no live leader left to tell owes nothing. -/
theorem ToldAll.settled (h : ToldAll cfg s rank) (hw : Wired cfg s) :
    s.isLeader rank = true → ∀ j, j ≠ rank → s.isLeader j = true → ¬ s.Owes rank j := by
  rintro hlead j hne hj ⟨_, l, hl, hlj⟩
  have hlt := hw.ranks j (Cluster.ne_none_of_isLeader hj)
  have hnot := h hlead l hl j hlt hlj.rank_le hne
  rw [hj] at hnot
  cases hnot

/-- The listener answers the `init_view` that it serves, and owes no live leader anything. -/
theorem Cluster.Rivals.replies {rank xid : Nat} {status : Status} {p p' : Process}
    (h : s.Rivals) (hw : Wired cfg s) (hp : s.process rank = some p)
    (hserving : p.serving = some xid) (hserving' : p'.serving = none)
    (hloops : p'.loops = (p.setLoop .listener none).loops)
    (hleader : p'.state.isLeader = p.state.isLeader)
    (hsettled : s.isLeader rank = true → ∀ j, j ≠ rank → s.isLeader j = true →
      ¬ s.Owes rank j) : ((s.setStatus xid status).setProcess rank p').Rivals := by
  have hset : (s.setProcess rank p').Rivals := h.settled hp hleader hsettled
  have hw' : Wired cfg (s.setProcess rank p') :=
    hw.ends hp hloops fun xid' hxid => by cases hserving'.symm.trans hxid
  have hawaits : (s.setProcess rank p').Awaits xid rank .initView :=
    hw.serves rank xid ((s.serving_eq rank hp).trans hserving)
  have hgentle : Gentle (s.setProcess rank p') ((s.setProcess rank p').setStatus xid status) := by
    refine .setStatus hw' hawaits (by simp) (Or.inr ?_)
    rw [Cluster.serving_setProcess, if_pos rfl, hserving']
    exact Option.some_ne_none xid |>.symm
  exact hset.gentle (hw'.calls Cluster.callsFrom_setStatus rfl rfl) hgentle

/-- A replica is told of the new view, and is no leader any more. -/
theorem Cluster.Rivals.follows {call : Call} {view : View} {p : Process} {status : Status}
    (h : s.Rivals) (hw : Wired cfg s) (hp : s.process call.dst = some p)
    (hcall : call ∈ s.calls) (hbody : call.body = .newView view) :
    ((s.setStatus call.xid status).setProcess call.dst
      { p with state := p.state.newView view }).Rivals := by
  have hleader : ∀ r, ((s.setStatus call.xid status).setProcess call.dst
      { p with state := p.state.newView view }).isLeader r = true →
        r ≠ call.dst ∧ s.isLeader r = true := by
    intro r hr
    rw [Cluster.isLeader_setProcess] at hr
    split_ifs at hr with hdst
    · cases hr
    · exact ⟨hdst, hr⟩
  refine h.mono (fun r hr => (hleader r hr).2) fun i j _ hi hj howed => ?_
  obtain ⟨⟨xid₀, hserving, ⟨c₀, hc₀, hxid₀⟩, hopen₀⟩, l, hl, hlj⟩ := howed
  have hp' : (s.setStatus call.xid status).process call.dst = some p := hp
  have hloop : ((s.setStatus call.xid status).setProcess call.dst
      { p with state := p.state.newView view }).loop i .listener = s.loop i .listener :=
    Cluster.loop_same _ _ _ _ hp' rfl
  refine ⟨?_, l, hloop.trans hl, ?_⟩
  · -- the call that is answered is no `init_view`
    have hother : ∀ c ∈ s.calls, c.xid = xid₀ → c.xid ≠ call.xid := by
      intro c hc hxid hsame
      have hinit := ((hw.serves i xid₀ hserving).2 c hc hxid).2
      have hview := (hw.distinct c hc call hcall hsame).2
      rw [hinit, hbody] at hview
      cases hview
    refine (Cluster.promoting_setProcess fun hcon => absurd hcon (hleader i hi).1).mpr ?_
    refine ⟨xid₀, hserving, ⟨c₀, Cluster.mem_setStatus.mpr ⟨c₀, hc₀, ?_⟩, hxid₀⟩,
      fun c hc hxid => ?_⟩
    · rw [if_neg (hother c₀ hc₀ hxid₀)]
    · obtain ⟨c', hc', rfl⟩ := Cluster.mem_setStatus.mp hc
      split_ifs at hxid ⊢ with hsame
      · exact absurd hsame (hother c' hc' hxid)
      · exact hopen₀ c' hc' hxid
  rcases hlj with hunvisited | ⟨hrank, xid, hxid, hopen⟩
  · exact Or.inl hunvisited
  · refine Or.inr ⟨hrank, xid, hxid, fun c hc hcx => ?_⟩
    obtain ⟨c₀, hc₀, rfl⟩ := Cluster.mem_setStatus.mp hc
    split_ifs at hcx ⊢ with hsame
    · -- the call that is answered went to a replica that is no leader now
      have hdst₀ := (hw.waits i .listener l xid hl hxid).2 c₀ hc₀ hcx
      have hdst := (hw.distinct c₀ hc₀ call hcall hsame).1
      exact absurd (hrank.symm.trans (hdst₀.1.symm.trans hdst)) (hleader j hj).1
    · exact hopen c₀ hc₀ hcx

/-- A replica takes the leadership while there is no other leader. -/
theorem Cluster.Rivals.of_alone {rank : Nat} {p : Process}
    (h : ∀ j, j ≠ rank → s.isLeader j = false) : (s.setProcess rank p).Rivals := by
  have hother : ∀ j, j ≠ rank → (s.setProcess rank p).isLeader j ≠ true := by
    intro j hj hlead
    rw [Cluster.isLeader_setProcess, if_neg hj, h j hj] at hlead
    cases hlead
  intro i j hne hi hj
  by_cases hrank : i = rank
  · exact absurd hj (hother j fun hcon => hne (hrank.trans hcon.symm))
  · exact absurd hi (hother i hrank)

/-- A replica is promoted, and owes its new view to everybody. -/
theorem Cluster.Rivals.leads {rank : Nat} {p : Process} (h : s.Rivals) (view : View)
    (hpromoting : (s.setProcess rank p).Promoting rank)
    (hloop : p.loops .listener = some ⟨.newView view, 0, none⟩) :
    (s.setProcess rank p).Rivals := by
  have hown : ∀ j, (s.setProcess rank p).Owes rank j := by
    intro j
    refine ⟨hpromoting, ⟨.newView view, 0, none⟩, ?_, Or.inl (Nat.zero_le j)⟩
    rw [Cluster.loop_setProcess, if_pos rfl]
    exact hloop
  have hother : ∀ i j, i ≠ rank → s.Owes i j → (s.setProcess rank p).Owes i j := by
    rintro i j hi ⟨hpromoting, l, hl, hlj⟩
    refine ⟨(Cluster.promoting_setProcess fun hcon => absurd hcon hi).mpr hpromoting, l, ?_, hlj⟩
    rw [Cluster.loop_setProcess, if_neg hi]
    exact hl
  intro i j hne hi hj
  by_cases hir : i = rank
  · exact Or.inl (hir ▸ hown j)
  · by_cases hjr : j = rank
    · exact Or.inr (hjr ▸ hown i)
    · rw [Cluster.isLeader_setProcess, if_neg hir] at hi
      rw [Cluster.isLeader_setProcess, if_neg hjr] at hj
      rcases h i j hne hi hj with hij | hji
      · exact Or.inl (hother i j hir hij)
      · exact Or.inr (hother j i hjr hji)

/-- A call leaves the network, and the listener that serves it owes nothing. -/
theorem Cluster.Rivals.lose {xid : Nat} (h : s.Rivals) (hw : Wired cfg s)
    (htold : ∀ rank < cfg.getMaxNumClient, s.serving rank = some xid → ToldAll cfg s rank) :
    (s.lose xid).Rivals := by
  refine h.mono (fun _ hr => hr) fun i j hne hi hj howed => ?_
  have hlt := hw.ranks i (Cluster.ne_none_of_isLeader (s := s) hi)
  have hserves : s.serving i ≠ some xid := fun hserving =>
    (htold i hlt hserving).settled hw hi j (Ne.symm hne) hj howed
  obtain ⟨⟨xid', hserving, ⟨c, hc, hxid⟩, hopen⟩, l, hl, hlj⟩ := howed
  refine ⟨⟨xid', hserving, ⟨c, Cluster.mem_lose.mpr ⟨hc, fun hcon => ?_⟩, hxid⟩,
    fun c' hc' => hopen c' (Cluster.mem_lose.mp hc').1⟩, l, hl, ?_⟩
  · rw [hxid] at hcon
    exact hserves (hcon ▸ hserving)
  · refine hlj.keep (hw.calls Cluster.callsFrom_lose rfl rfl) hl fun c' hc' _ _ _ => ?_
    exact (Cluster.mem_lose.mp hc').1

/-- A step in which every live leader is told keeps the invariant. -/
theorem Moves.rivals {l : Label} (h : Moves cfg mutating s l s') (hw : Wired cfg s)
    (hr : s.Rivals) (htelling : Telling cfg s l) : s'.Rivals := by
  have hw' := h.wired hw
  -- a step of the manager's or of the client's loop
  have hthread : ∀ (t : Thread) {p : Process} {l : Option Loop}, Thread.listener ≠ t →
      (p.setLoop t l).loops .listener = p.loops .listener := by
    intro t p l ht
    rw [Process.loops_setLoop, if_neg ht]
  cases h with
  | start _ _ => exact hr.gentle hw' .start
  | crash _ => exact hr.gentle hw' (.crash hw _)
  | waits hp hsame => exact hr.gentle hw' (.own hp (fun hl => hsame ▸ hl) rfl rfl)
  | @leads rank reachable up p hp _ _ hrun =>
    -- the condition: there is no other live leader
    have hleads : takesLeadership cfg s rank reachable up = true := by
      unfold takesLeadership
      rw [hp, Option.any_some, hrun]
    refine .of_alone fun j hj => ?_
    by_contra hlead
    rw [Bool.not_eq_false] at hlead
    have hlt := hw.ranks j (Cluster.ne_none_of_isLeader hlead)
    rw [htelling hleads j hlt hj] at hlead
    cases hlead
  | chooses hp => exact hr.gentle hw' (.own hp (fun hl => hl) rfl rfl)
  | notifies hp _ => exact hr.gentle hw' (Gentle.send.trans (.own hp (fun hl => hl) rfl rfl))
  | @notified rank chosen xid val p hp _ hanswer =>
    refine hr.gentle hw' (Gentle.trans (.lose_answered hanswer) (.own hp (fun hl => ?_) rfl rfl))
    unfold ReplicaState.notified at hl
    split_ifs at hl
    exact hl
  | @passes rank i t up body p hp hloop _ hself =>
    refine hr.advance hp hloop rfl rfl rfl fun ht hlead hne hleader _ => ?_
    rcases hself with hself | rfl
    · exact hne hself
    · -- the condition: the replica passed over is no leader
      subst ht
      have hnot := htelling hlead _ ((s.loop_eq rank .listener hp).trans hloop) hne
      rw [hleader] at hnot
      cases hnot
  | @sends rank i t body p hp hloop _ _ =>
    have hsent : (s.send i body).Rivals := hr.gentle (hw.send i body).1 .send
    have hp' : (s.send i body).process rank = some p := hp
    refine hsent.setLoop hp' hloop rfl rfl rfl fun _ _ j _ _ hlj => ⟨_, rfl, ?_⟩
    have hle : i ≤ j := hlj.rank_le
    by_cases hij : i = j
    · refine Or.inr ⟨hij, s.nextXid, rfl, fun c hc hxid => ?_⟩
      rcases Cluster.mem_send hc with hc | ⟨_, rfl⟩
      · exact absurd hxid (Nat.ne_of_lt (hw.fresh c hc))
      · rfl
    · exact Or.inl (by show i < j; omega)
  | @resumes rank i xid t body a p hp hloop hanswer =>
    obtain ⟨c, hc, hxid, hstatus⟩ := Cluster.mem_of_answer hanswer
    have hlost : Gentle (s.setProcess rank
        ({ p with locked := p.locked.erase i }.setLoop t (some ⟨body, i + 1, none⟩)))
        ((s.setProcess rank _).lose xid) := .lose_answered (a := a) hanswer
    refine Cluster.Rivals.gentle ?_ hw' hlost
    refine hr.advance hp hloop rfl rfl rfl fun _ _ _ _ hlj => ?_
    rcases hlj with hunvisited | ⟨_, xid', hsame, hopen⟩
    · exact absurd hunvisited (Nat.lt_irrefl i)
    · cases hsame
      have hclosed := hopen c hc hxid
      rw [hstatus] at hclosed
      cases hclosed
  | @abandons rank xid p hp hserving =>
    -- the condition: no live leader is left to be told
    have htold : ToldAll cfg s rank := htelling
    exact hr.replies hw hp hserving rfl rfl rfl (htold.settled hw)
  | throws hp => exact hr.gentle hw' (.own hp (fun hl => hl) rfl (hthread .client (by simp)))
  | initializes hp _ _ =>
    exact hr.gentle hw' (.own hp (fun hl => hl) rfl (hthread .manager (l := none) (by simp)))
  | @promoted rank i xid body p hp hserving hloop hi =>
    refine hr.replies hw hp hserving rfl rfl rfl ?_
    -- every replica has been called
    rintro _ j _ hj ⟨_, l, hl, hlj⟩
    obtain rfl := Option.some.inj (hl.symm.trans ((s.loop_eq rank .listener hp).trans hloop))
    have hlt := hw.ranks j (Cluster.ne_none_of_isLeader hj)
    have hle : i ≤ j := hlj.rank_le
    omega
  | @commits rank i c p hp _ _ =>
    have hp' : (s.backUp rank mutating c).process rank = some p := by
      rw [Cluster.process_backUp]
      exact hp
    have hown : Gentle (s.backUp rank mutating c)
        ((s.backUp rank mutating c).setProcess rank (p.setLoop .client none)) :=
      .own hp' (fun hl => hl) rfl (hthread .client (by simp))
    exact hr.gentle hw' ((Gentle.backUp rank c).trans (hown.trans (.ofCalls rfl (fun _ hr => hr)
      fun _ hc _ _ _ => hc)))
  | follows hc _ hp hbody => exact hr.follows hw hp hc hbody
  | @backsUp c command p hc _ _ hbody =>
    have hset : Gentle s (s.setStatus c.xid (.answered .replicated)) := by
      refine .setStatus hw (hw.awaits hc) (by simp [hbody]) (Or.inr fun hserving => ?_)
      have hinit := ((hw.serves c.dst c.xid hserving).2 c hc rfl).2
      rw [hbody] at hinit
      cases hinit
    exact hr.gentle hw' (hset.trans (.backUp c.dst command))
  | @refuses c p hc _ hp hserving hbody _ =>
    refine hr.gentle hw' (.setStatus hw (hw.awaits hc) (by simp [hbody]) (Or.inr ?_))
    rw [s.serving_eq c.dst hp, hserving]
    exact Option.some_ne_none c.xid |>.symm
  | @accepts c p hc _ hp _ hbody _ =>
    have hset : (s.setStatus c.xid .served).Rivals :=
      hr.gentle (hw.calls Cluster.callsFrom_setStatus rfl rfl)
        (.setStatus hw (hw.awaits hc) (by simp [hbody]) (Or.inl rfl))
    refine hset.leads (p.state.view.ledBy cfg c.dst)
      ⟨c.xid, ?_, ⟨_, Cluster.mem_setStatus.mpr ⟨c, hc, rfl⟩, ?_⟩,
      fun c' hc' hxid => ?_⟩ ?_
    · rw [Cluster.serving_setProcess, if_pos rfl]
    · rw [if_pos rfl]
    · obtain ⟨c₀, _, rfl⟩ := Cluster.mem_setStatus.mp hc'
      split_ifs at hxid ⊢ with hsame
      · rfl
      · exact absurd hxid hsame
    · show (p.setLoop .listener (some ⟨.newView (p.state.view.ledBy cfg c.dst), 0, none⟩)).loops
        .listener = _
      rw [Process.loops_setLoop, if_pos rfl]
  | loses => exact hr.lose hw htelling
  | declines _ _ => exact hr
  | @executes rank request p hp _ _ =>
    have hown : Gentle s (s.setProcess rank
        (p.setLoop .client (some ⟨.command ⟨s.nextNumber, request⟩, 0, none⟩))) :=
      .own hp (fun hl => hl) rfl (hthread .client (by simp))
    exact hr.gentle hw' (hown.trans (.ofCalls rfl (fun _ hr => hr) fun _ hc _ _ _ => hc))

end Invariant

/-! ## The runs in which every leader is told -/

/-- In every state of a run in which every live leader is told of a new view,
    there is one leader at most while no call about the leadership is in flight. -/
theorem singleLeader_reachable (cfg : Config) (mutating : Str → Bool) (s : Cluster)
    (h : (cluster cfg mutating).Reach (Telling cfg) s) : SingleLeader cfg s := by
  have hok : Wired cfg s ∧ s.Rivals := by
    refine h.invariant (I := fun s => Wired cfg s ∧ s.Rivals) ?_ ?_
    · rintro s rfl
      refine ⟨wired_initial, fun i j _ hi => ?_⟩
      cases hi
    · intro s s' l _ hok htelling hstep
      have hmoves := step_moves hstep
      exact ⟨hmoves.wired hok.1, hmoves.rivals hok.1 hok.2 htelling⟩
  -- the `init_view` that promotes a leader is in the network
  have hover : ∀ i j, ¬ ViewInFlight s → ¬ s.Owes i j := by
    rintro i j hquiet ⟨⟨xid, hserving, ⟨c, hc, hxid⟩, hopen⟩, _⟩
    refine hquiet ⟨c, hc, hopen c hc hxid, ?_⟩
    rw [((hok.1.serves i xid hserving).2 c hc hxid).2]
    rfl
  intro hquiet i _ j _ hi hj
  by_contra hne
  rcases hok.2 i j hne hi hj with howes | howes
  · exact hover i j hquiet howes
  · exact hover j i hquiet howes

/-- The second replica promotes the first one, which tells it so; when the first one
    has ended, the second one takes the leadership itself. -/
def promotesAndLeads : List Label :=
  [.start 0, .start 1, .manage 1 false [0], .notify 1 true, .serve 0,
    .replicateCommand 0 .listener true, .replicateCommand 0 .listener true, .serve 1,
    .resume 0 .listener, .finish 0 .listener, .notified 1, .crash 0, .manage 1 false [],
    .manage 1 false []]

theorem singleLeader_told :
    ∃ s, (cluster twoReplicas fun _ => true).exec (Telling twoReplicas) promotesAndLeads .initial =
      some s ∧ ¬ ViewInFlight s ∧ s.isLeader 1 = true ∧ SingleLeader twoReplicas s := by
  have hrun : ∃ s, (cluster twoReplicas fun _ => true).exec (Telling twoReplicas) promotesAndLeads
      .initial = some s ∧ ¬ ViewInFlight s ∧ s.isLeader 1 = true := by
    refine ⟨_, rfl, ?_⟩
    decide
  obtain ⟨s, hs, hquiet, hleader⟩ := hrun
  exact ⟨s, hs, hquiet, hleader, singleLeader_reachable twoReplicas (fun _ => true) s
    (Lts.Reach.exec (.init rfl) hs)⟩

/-- Both replicas take the leadership, and neither reaches the other one. -/
def apart : List Label :=
  [.start 0, .manage 0 false [], .start 1, .manage 1 false [],
    .replicateCommand 0 .manager false, .replicateCommand 0 .manager false, .finish 0 .manager,
    .replicateCommand 1 .manager false, .replicateCommand 1 .manager false, .finish 1 .manager]

/-- Two replicas that do not reach each other are both leaders. -/
theorem not_singleLeader :
    ¬ ∀ s, (cluster twoReplicas fun _ => true).Reach (fun _ _ => True) s →
      SingleLeader twoReplicas s := by
  intro hall
  have hrun : ∃ s, (cluster twoReplicas fun _ => true).exec (fun _ _ => True) apart
      .initial = some s ∧ ¬ ViewInFlight s ∧ s.isLeader 0 = true ∧
        s.isLeader 1 = true := by
    refine ⟨_, rfl, ?_⟩
    decide
  obtain ⟨s, hs, hquiet, hzero, hone⟩ := hrun
  have heq := hall s (Lts.Reach.exec (.init rfl) hs) hquiet 0 (by decide) 1 (by decide) hzero hone
  cases heq

end Paxos

end SimpleChubby
