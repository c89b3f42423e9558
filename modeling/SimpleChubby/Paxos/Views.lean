import Mathlib.Data.List.Nodup
import SimpleChubby.Paxos.Agreement

/-!
# The leader flag and the view

A replica is a leader exactly when the primary of its view is the replica
itself. A view travels between the replicas only in the broadcast of the replica
that leads it, which passes over that replica.
-/

namespace SimpleChubby

namespace Paxos

/-- The replicas have client addresses, and no two of them the same one. -/
structure Config.Distinct (cfg : Config) : Prop where
  nodup : (cfg.addresses.map Prod.snd).Nodup
  nonempty : ∀ a ∈ cfg.addresses, a.2 ≠ []

section Statement

variable (cfg : Config) (s : Cluster)

/-- A live replica is a leader if and only if its view names its own address. One
    that is not finds the rank of another replica under the address in its view,
    if there is one, and looks for the leader without failing an assertion. -/
structure LeadershipAgrees : Prop where
  agrees : ∀ r p, s.process r = some p →
    (p.state.isLeader = true ↔ p.state.view.primary.addr = cfg.getClientUseAddress r)
  other : ∀ r p, s.process r = some p → p.state.isLeader = false →
    p.state.view.primary.addr ≠ [] → ∃ j < cfg.getMaxNumClient, j ≠ r ∧
      cfg.getClientUseAddressRank p.state.view.primary.addr = some j
  looks : ∀ r p reachable, s.process r = some p → isLeaderDown cfg r reachable p.state ≠ none

end Statement

/-! ## The invariant -/

/-- A leader has its own view; a replica that is none has the view of another
    one, or knows no leader. -/
structure ReplicaState.Agrees (cfg : Config) (r : Nat) (st : ReplicaState) : Prop where
  leads : st.isLeader = true → st.view.primary = cohortOf cfg r
  follows : st.isLeader = false → st.view.primary.addr = [] ∨
    ∃ j < cfg.getMaxNumClient, j ≠ r ∧ st.view.primary = cohortOf cfg j

/-- Every view that is kept, broadcast or under way is that of its leader. -/
structure Viewed (cfg : Config) (s : Cluster) : Prop where
  states : ∀ r p, s.process r = some p → p.state.Agrees cfg r
  chosen : ∀ r p c call, s.process r = some p → p.notifying = some (c, call) →
    c < cfg.getMaxNumClient ∧ c ≠ r
  loops : ∀ r t l view, s.loop r t = some l → l.body = .newView view → view.primary = cohortOf cfg r
  calls : ∀ c ∈ s.calls, ∀ view, c.body = .newView view →
    ∃ j < cfg.getMaxNumClient, j ≠ c.dst ∧ view.primary = cohortOf cfg j

section States

variable {cfg : Config} {r : Nat} {st : ReplicaState}

theorem ReplicaState.agrees_fresh : ReplicaState.fresh.Agrees cfg r where
  leads h := by cases h
  follows _ := Or.inl rfl

theorem ReplicaState.agrees_lead : (st.lead cfg r).Agrees cfg r where
  leads _ := rfl
  follows h := by cases h

/-- The view of another replica has been announced. -/
theorem ReplicaState.agrees_newView (st : ReplicaState) {j : Nat} {view : View}
    (hj : j < cfg.getMaxNumClient) (hne : j ≠ r) (hview : view.primary = cohortOf cfg j) :
    (st.newView view).Agrees cfg r where
  leads h := by cases h
  follows _ := Or.inr ⟨j, hj, hne, hview⟩

theorem ReplicaState.Agrees.notified (h : st.Agrees cfg r) {chosen : Nat}
    (hchosen : chosen < cfg.getMaxNumClient) (hne : chosen ≠ r) (val : Bool) :
    (st.notified cfg chosen val).Agrees cfg r := by
  unfold ReplicaState.notified
  split_ifs with hval
  · exact ⟨h.leads, h.follows⟩
  · exact ReplicaState.agrees_newView { st with mode := .active } hchosen hne rfl

/-- The chosen rank is the replica's own, or that of another replica. -/
theorem getNewLeaderRank_cases (cfg : Config) (self : Nat) (up : List Nat) :
    getNewLeaderRank cfg self up = self ∨ getNewLeaderRank cfg self up < cfg.getMaxNumClient := by
  unfold getNewLeaderRank
  split
  · exact Or.inl rfl
  · next i hfind =>
    split_ifs
    · exact Or.inr (List.mem_range.mp (List.mem_of_find?_eq_some hfind))
    · exact Or.inl rfl

/-- A turn of the manager's loop keeps the flag and the view together. -/
theorem ReplicaState.Agrees.run (h : st.Agrees cfg r) (reachable : Bool) (up : List Nat) :
    match run cfg r reachable up st with
    | .abort => True
    | .waits st' => st'.Agrees cfg r
    | .leads st' => st' = st.lead cfg r
    | .chooses chosen => chosen < cfg.getMaxNumClient ∧ chosen ≠ r := by
  unfold Paxos.run notifyNewLeader
  split_ifs with hmode
  · cases isLeaderDown cfg r reachable st with
    | none => trivial
    | some down =>
      cases down with
      | false => trivial
      | true =>
        dsimp only
        split_ifs with hself
        · rfl
        · rcases getNewLeaderRank_cases cfg r up with hrank | hrank
          · exact absurd hrank hself
          · exact ⟨hrank, hself⟩
  · cases isLeaderDown cfg r reachable st with
    | none => trivial
    | some down =>
      cases down with
      | false => exact h
      | true => exact ⟨h.leads, h.follows⟩

end States

/-! ## What the steps do to the invariant -/

section Steps

variable {cfg : Config} {mutating : Str → Bool} {s s' : Cluster}

theorem viewed_initial : Viewed cfg .initial where
  states r p hp := by cases hp
  chosen r p c call hp := by cases hp
  loops r t l view hl := by cases hl
  calls c hc := absurd hc List.not_mem_nil

/-- The processes stay, and no call is new. -/
theorem Viewed.ofCalls (h : Viewed cfg s) (hcalls : s.CallsFrom s')
    (hprocess : s'.process = s.process) : Viewed cfg s' where
  states r p hp := h.states r p (hprocess ▸ hp)
  chosen r p c call hp := h.chosen r p c call (hprocess ▸ hp)
  loops r t l view hl := by
    unfold Cluster.loop at hl
    rw [hprocess] at hl
    exact h.loops r t l view hl
  calls c' hc' view hview := by
    obtain ⟨c, hc, _, hdst, hbody⟩ := hcalls c' hc'
    rw [← hdst]
    exact h.calls c hc view (hbody.trans hview)

/-- One running replica takes a step of its own. -/
theorem Viewed.own (h : Viewed cfg s) {rank : Nat} {p : Process}
    (hstate : p.state.Agrees cfg rank)
    (hchosen : ∀ c call, p.notifying = some (c, call) → c < cfg.getMaxNumClient ∧ c ≠ rank)
    (hloops : ∀ t l view, p.loops t = some l → l.body = .newView view →
      view.primary = cohortOf cfg rank) :
    Viewed cfg (s.setProcess rank p) where
  states r q hq := by
    rw [Cluster.process_setProcess] at hq
    split_ifs at hq with hr
    · obtain rfl := Option.some.inj hq
      exact hr ▸ hstate
    · exact h.states r q hq
  chosen r q c call hq hnotifying := by
    rw [Cluster.process_setProcess] at hq
    split_ifs at hq with hr
    · obtain rfl := Option.some.inj hq
      exact hr ▸ hchosen c call hnotifying
    · exact h.chosen r q c call hq hnotifying
  loops r t l view hl hbody := by
    rw [Cluster.loop_setProcess] at hl
    split_ifs at hl with hr
    · exact hr ▸ hloops t l view hl hbody
    · exact h.loops r t l view hl hbody
  calls := h.calls

/-- A process ends. -/
theorem Viewed.crash (h : Viewed cfg s) (rank : Nat) : Viewed cfg (s.crash rank) where
  states r p hp := by
    rw [Cluster.process_crash] at hp
    split_ifs at hp
    exact h.states r p hp
  chosen r p c call hp := by
    rw [Cluster.process_crash] at hp
    split_ifs at hp
    exact h.chosen r p c call hp
  loops r t l view hl := by
    rw [Cluster.loop_crash] at hl
    split_ifs at hl
    exact h.loops r t l view hl
  calls c hc := h.calls c (Cluster.mem_crash.mp hc).1

/-- A call that does not announce the view of its callee is sent. -/
theorem Viewed.send (h : Viewed cfg s) {dst : Nat} {body : Body}
    (hbody : ∀ view, body = .newView view →
      ∃ j < cfg.getMaxNumClient, j ≠ dst ∧ view.primary = cohortOf cfg j) :
    Viewed cfg (s.send dst body) where
  states := h.states
  chosen := h.chosen
  loops := h.loops
  calls c hc := by
    rcases Cluster.mem_send hc with hc | ⟨_, rfl⟩
    · exact h.calls c hc
    · exact hbody

/-- The loops of a process are its own, with one of them replaced. -/
theorem Viewed.setLoop (h : Viewed cfg s) {rank : Nat} {p : Process} {t : Thread}
    {l : Option Loop} (hp : s.process rank = some p)
    (hl : ∀ m view, l = some m → m.body = .newView view → view.primary = cohortOf cfg rank) :
    ∀ t' m view, (p.setLoop t l).loops t' = some m → m.body = .newView view →
      view.primary = cohortOf cfg rank := by
  intro t' m view hm hbody
  rcases Process.loops_of_setLoop hm with hm | ⟨_, hm⟩
  · exact h.loops rank t' m view ((s.loop_eq rank t' hp).trans hm) hbody
  · exact hl m view hm hbody

/-- The loops of a process that goes on as before. -/
theorem Viewed.sameLoops (h : Viewed cfg s) {rank : Nat} {p : Process}
    (hp : s.process rank = some p) :
    ∀ t m view, p.loops t = some m → m.body = .newView view → view.primary = cohortOf cfg rank :=
  fun t m view hm hbody => h.loops rank t m view ((s.loop_eq rank t hp).trans hm) hbody

/-- A turn of the manager's loop. -/
theorem Viewed.manage (h : Viewed cfg s) {rank : Nat} {reachable : Bool} {up : List Nat}
    {p : Process} (hp : s.process rank = some p)
    (hstep : manage cfg rank reachable up p s = some s') : Viewed cfg s' := by
  have hrun := (h.states rank p hp).run reachable up
  unfold Paxos.manage at hstep
  split_ifs at hstep with hbusy
  cases hturn : run cfg rank reachable up p.state with
  | abort =>
    rw [hturn] at hstep
    cases hstep
    exact h.crash rank
  | waits st =>
    rw [hturn] at hstep hrun
    cases hstep
    exact h.own hrun (fun c call => h.chosen rank p c call hp) (h.sameLoops (p := p) hp)
  | leads st =>
    rw [hturn] at hstep hrun
    cases hstep
    subst hrun
    refine h.own ReplicaState.agrees_lead (fun c call => h.chosen rank p c call hp)
      (h.setLoop (p := p) hp fun m view hm hbody => ?_)
    cases hm
    cases hbody
    rfl
  | chooses chosen =>
    rw [hturn] at hstep hrun
    cases hstep
    refine h.own (h.states rank p hp) (fun c call hnotifying => ?_) (h.sameLoops (p := p) hp)
    cases hnotifying
    exact hrun

/-- Every other step keeps the views. -/
theorem Moves.viewed {l : Label} (hmoves : Moves cfg mutating s l s') (hw : Wired cfg s)
    (h : Viewed cfg s) (hl : ∀ rank reachable up, l ≠ .manage rank reachable up) :
    Viewed cfg s' := by
  cases hmoves with
  | waits _ _ => exact absurd rfl (hl _ _ _)
  | leads _ _ _ _ => exact absurd rfl (hl _ _ _)
  | chooses _ => exact absurd rfl (hl _ _ _)
  | start _ _ =>
    refine h.own ReplicaState.agrees_fresh (fun c call hnotifying => ?_) fun t m view hm => ?_
    · cases hnotifying
    · cases hm
  | crash _ => exact h.crash _
  | @notifies rank chosen p hp hnotifying =>
    refine (h.send fun view hview => by cases hview).own (h.states rank p hp)
      (fun c call hnew => ?_) (h.sameLoops (p := p) hp)
    cases hnew
    exact h.chosen rank p chosen none hp hnotifying
  | @notified rank chosen xid val p hp hnotifying _ =>
    obtain ⟨hchosen, hne⟩ := h.chosen rank p chosen _ hp hnotifying
    refine (h.ofCalls Cluster.callsFrom_lose rfl).own
      ((h.states rank p hp).notified hchosen hne val) (fun c call hnone => ?_)
      (h.sameLoops (p := p) hp)
    cases hnone
  | @passes rank i t up body p hp hloop _ _ =>
    refine h.own (h.states rank p hp) (fun c call => h.chosen rank p c call hp)
      (h.setLoop (p := p) hp fun m view hm => ?_)
    cases hm
    exact h.sameLoops hp t ⟨body, i, none⟩ view hloop
  | @sends rank i t body p hp hloop _ hne =>
    -- the view of the caller goes to another replica
    have hbody : ∀ view, body = .newView view → view.primary = cohortOf cfg rank :=
      fun view => h.sameLoops hp t _ view hloop
    have hrank : rank < cfg.getMaxNumClient := hw.ranks rank (by rw [hp]; simp)
    refine (h.send fun view hview => ⟨rank, hrank, hne.symm, hbody view hview⟩).own
      (h.states rank p hp) (fun c call => h.chosen rank p c call hp)
      (h.setLoop (p := p) hp fun m view hm => ?_)
    cases hm
    exact hbody view
  | @resumes rank i xid t body a p hp hloop _ =>
    refine (h.ofCalls Cluster.callsFrom_lose rfl).own (h.states rank p hp)
      (fun c call => h.chosen rank p c call hp) (h.setLoop (p := p) hp fun m view hm => ?_)
    cases hm
    exact h.sameLoops hp t ⟨body, i, some xid⟩ view hloop
  | @abandons rank xid p hp _ =>
    exact (h.ofCalls Cluster.callsFrom_setStatus rfl).own (h.states rank p hp)
      (fun c call => h.chosen rank p c call hp) (h.setLoop (p := p) hp fun m view hm => by cases hm)
  | @throws rank p hp =>
    exact h.own (h.states rank p hp) (fun c call => h.chosen rank p c call hp)
      (h.setLoop (p := p) hp fun m view hm => by cases hm)
  | @initializes rank i body p hp _ _ =>
    have hstate := h.states rank p hp
    exact h.own ⟨hstate.leads, hstate.follows⟩ (fun c call => h.chosen rank p c call hp)
      (h.setLoop (p := p) hp fun m view hm => by cases hm)
  | @promoted rank i xid body p hp _ _ _ =>
    have hstate := h.states rank p hp
    exact (h.ofCalls Cluster.callsFrom_setStatus rfl).own ⟨hstate.leads, hstate.follows⟩
      (fun c call => h.chosen rank p c call hp) (h.setLoop (p := p) hp fun m view hm => by cases hm)
  | @commits rank i c p hp _ _ =>
    have hback : Viewed cfg (s.backUp rank mutating c) := by
      refine h.ofCalls ?_ (s.process_backUp rank)
      rw [Cluster.CallsFrom, Cluster.calls_backUp]
      exact Cluster.CallsFrom.refl s
    have hown : Viewed cfg
        ((s.backUp rank mutating c).setProcess rank (p.setLoop .client none)) :=
      hback.own (h.states rank p hp) (fun c call => h.chosen rank p c call hp)
        (h.setLoop (p := p) hp fun m view hm => by cases hm)
    exact hown.ofCalls (.refl _) rfl
  | @follows c view p hc _ hp hbody =>
    obtain ⟨j, hj, hne, hview⟩ := h.calls c hc view hbody
    exact (h.ofCalls Cluster.callsFrom_setStatus rfl).own
      (ReplicaState.agrees_newView _ hj hne hview)
      (fun c' call => h.chosen c.dst p c' call hp) (h.sameLoops (p := p) hp)
  | @backsUp c command p hc _ _ _ =>
    refine (h.ofCalls Cluster.callsFrom_setStatus rfl).ofCalls ?_ (Cluster.process_backUp _ _)
    rw [Cluster.CallsFrom, Cluster.calls_backUp]
    exact Cluster.CallsFrom.refl _
  | refuses _ _ _ _ _ _ => exact h.ofCalls Cluster.callsFrom_setStatus rfl
  | @accepts c p hc _ hp _ _ _ =>
    refine (h.ofCalls Cluster.callsFrom_setStatus rfl).own ReplicaState.agrees_lead
      (fun c' call => h.chosen c.dst p c' call hp) (h.setLoop (p := p) hp fun m view hm hbody => ?_)
    cases hm
    cases hbody
    rfl
  | loses => exact h.ofCalls Cluster.callsFrom_lose rfl
  | declines _ _ => exact h
  | @executes rank request p hp _ _ =>
    have hown : Viewed cfg (s.setProcess rank
        (p.setLoop .client (some ⟨.command ⟨s.nextNumber, request⟩, 0, none⟩))) := by
      refine h.own (h.states rank p hp) (fun c call => h.chosen rank p c call hp)
        (h.setLoop (p := p) hp fun m view hm hbody => ?_)
      cases hm
      cases hbody
    exact hown.ofCalls (.refl _) rfl

theorem Viewed.step (h : Viewed cfg s) (hw : Wired cfg s) {l : Label}
    (hstep : step cfg mutating l s = some s') : Viewed cfg s' := by
  cases l with
  | manage rank reachable up =>
    obtain ⟨p, hp, hmanage⟩ := Option.bind_eq_some_iff.mp hstep
    exact h.manage hp hmanage
  | _ => exact (step_moves hstep).viewed hw h (by simp)

end Steps

/-! ## What the flag says of the view -/

section Addresses

variable {cfg : Config} {i j r : Nat} {st : ReplicaState}

theorem Config.getClientUseAddress_eq (hi : i < cfg.getMaxNumClient) :
    cfg.getClientUseAddress i = (cfg.addresses.get ⟨i, hi⟩).2 := by
  unfold Config.getClientUseAddress
  rw [List.getD_eq_getElem?_getD, List.getElem?_eq_getElem hi]
  rfl

theorem Config.Distinct.address_ne_nil (h : cfg.Distinct) (hi : i < cfg.getMaxNumClient) :
    cfg.getClientUseAddress i ≠ [] := by
  rw [Config.getClientUseAddress_eq hi]
  exact h.nonempty _ (List.getElem_mem hi)

theorem Config.Distinct.address_inj (h : cfg.Distinct) (hi : i < cfg.getMaxNumClient)
    (hj : j < cfg.getMaxNumClient) (heq : cfg.getClientUseAddress i = cfg.getClientUseAddress j) :
    i = j := by
  have hi' : i < (cfg.addresses.map Prod.snd).length := (List.length_map _).symm ▸ hi
  have hj' : j < (cfg.addresses.map Prod.snd).length := (List.length_map _).symm ▸ hj
  rw [Config.getClientUseAddress_eq hi, Config.getClientUseAddress_eq hj] at heq
  have hsame : (cfg.addresses.map Prod.snd)[i] = (cfg.addresses.map Prod.snd)[j] := by
    rw [List.getElem_map, List.getElem_map]
    exact heq
  exact (List.Nodup.getElem_inj_iff h.nodup).mp hsame

/-- The rank of an address is that of its replica. -/
theorem Config.Distinct.rank_eq (h : cfg.Distinct) (hi : i < cfg.getMaxNumClient) :
    cfg.getClientUseAddressRank (cfg.getClientUseAddress i) = some i := by
  unfold Config.getClientUseAddressRank
  rw [List.findIdx?_eq_some_iff_getElem]
  refine ⟨hi, ?_, fun j hj => ?_⟩
  · exact beq_iff_eq.mpr (Config.getClientUseAddress_eq hi).symm
  · have hj' : j < cfg.getMaxNumClient := Nat.lt_trans hj hi
    intro heq
    have haddr := (Config.getClientUseAddress_eq hj').trans (beq_iff_eq.mp heq)
    exact absurd (h.address_inj hj' hi haddr) (Nat.ne_of_lt hj)

theorem ReplicaState.Agrees.iff (h : st.Agrees cfg r) (hcfg : cfg.Distinct)
    (hr : r < cfg.getMaxNumClient) :
    st.isLeader = true ↔ st.view.primary.addr = cfg.getClientUseAddress r := by
  constructor
  · intro hleader
    rw [h.leads hleader]
    rfl
  · intro haddr
    by_contra hnot
    rcases h.follows (by simpa using hnot) with hnone | ⟨j, hj, hne, hview⟩
    · exact hcfg.address_ne_nil hr (haddr.symm.trans hnone)
    · rw [hview] at haddr
      exact hne (hcfg.address_inj hj hr haddr)

theorem ReplicaState.Agrees.other (h : st.Agrees cfg r) (hcfg : cfg.Distinct)
    (hleader : st.isLeader = false) (hknown : st.view.primary.addr ≠ []) :
    ∃ j < cfg.getMaxNumClient, j ≠ r ∧
      cfg.getClientUseAddressRank st.view.primary.addr = some j := by
  rcases h.follows hleader with hnone | ⟨j, hj, hne, hview⟩
  · exact absurd hnone hknown
  · exact ⟨j, hj, hne, hview ▸ hcfg.rank_eq hj⟩

/-- `isLeaderDown` fails neither of its assertions. -/
theorem ReplicaState.Agrees.looks (h : st.Agrees cfg r) (hcfg : cfg.Distinct) (reachable : Bool) :
    isLeaderDown cfg r reachable st ≠ none := by
  unfold isLeaderDown
  split_ifs with hleader hknown
  · simp
  · simp
  · obtain ⟨j, _, hne, hrank⟩ := h.other hcfg (by simpa using hleader) hknown
    simp [hrank, hne]

end Addresses

/-- In every state of a run of replicas with distinct client addresses the leader
    flag of a replica agrees with its view. -/
theorem leadershipAgrees_reachable (cfg : Config) (hcfg : cfg.Distinct) (mutating : Str → Bool)
    (s : Cluster) (h : (cluster cfg mutating).Reach (fun _ _ => True) s) :
    LeadershipAgrees cfg s := by
  have hok : Wired cfg s ∧ Viewed cfg s := by
    refine h.invariant (I := fun s => Wired cfg s ∧ Viewed cfg s) ?_ ?_
    · rintro s rfl
      exact ⟨wired_initial, viewed_initial⟩
    · intro s s' l _ hok _ hstep
      exact ⟨(step_moves hstep).wired hok.1, hok.2.step hok.1 hstep⟩
  refine ⟨fun r p hp => ?_, fun r p hp => ?_, fun r p reachable hp => ?_⟩
  · exact (hok.2.states r p hp).iff hcfg (hok.1.ranks r (by rw [hp]; simp))
  · exact (hok.2.states r p hp).other hcfg
  · exact (hok.2.states r p hp).looks hcfg reachable

theorem twoReplicas_distinct : twoReplicas.Distinct := ⟨by decide, by decide⟩

/-- The first replica leads, and the second one has heard of it. -/
theorem leadershipAgrees_told :
    ∃ s, (cluster twoReplicas fun _ => true).exec (fun _ _ => True)
      firstLeads .initial = some s ∧ s.isLeader 0 = true ∧
        s.process 1 ≠ none ∧ LeadershipAgrees twoReplicas s := by
  have hrun : ∃ s, (cluster twoReplicas fun _ => true).exec (fun _ _ => True)
      firstLeads .initial = some s ∧ s.isLeader 0 = true ∧
        s.process 1 ≠ none := by
    refine ⟨_, rfl, ?_⟩
    decide
  obtain ⟨s, hs, hleader, hup⟩ := hrun
  exact ⟨s, hs, hleader, hup, leadershipAgrees_reachable twoReplicas twoReplicas_distinct
    (fun _ => true) s (Lts.Reach.exec (.init rfl) hs)⟩

end Paxos

end SimpleChubby
